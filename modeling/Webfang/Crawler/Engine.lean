import Webfang.Lib.Execution
import Webfang.Crawler.CrawlTask

/-!
# The crawl engine

`application/crawler/engine.rs`: the crawl loop in its phases, its tasks, the shutdown flag and
the cancellation token, the checkpoint on disk and the process that may be started again from
it.  A list of actions is one history: any interleaving of task moves with the loop, and any
number of processes one after another.
-/

namespace Webfang

/-- `CrawlCheckpoint`, of the current version. -/
structure CrawlCheckpoint (υ η : Type) where
  visited : List υ
  queued : List υ
  pagesCrawled : Nat
  bannedDomains : List η
  deriving DecidableEq, Repr

/-- What is recorded of a process and, before their saves, of the processes its checkpoint comes
from. -/
structure CrawlLog (υ : Type) where
  /-- what `next_url` returned -/
  dispatched : List υ
  /-- how the tasks ended -/
  ended : List (υ × TaskEnd)
  /-- every acceptance with the page its link was found on, the latest first -/
  discoveries : List (Option υ × υ)
  deriving DecidableEq, Repr

/-- What is recorded beside the state. -/
structure CrawlTrace (υ η : Type) where
  /-- this process: what `seed`, `restore_pending` and `push_prioritized` accepted -/
  accepted : List υ
  /-- this process: the visited URLs it was started with -/
  restored : List υ
  /-- this process: what `next_url` returned -/
  started : List (DiscoveredUrl υ)
  /-- this process: the recorded pages, as requested and as landed on -/
  landed : List (υ × υ)
  log : CrawlLog υ
  /-- the whole history: every host that was banned -/
  everBanned : List η
  deriving DecidableEq, Repr

/-- Where `Engine::run` stands. -/
inductive EnginePhase
  /-- the `while` condition and the two checks behind it -/
  | head
  | reap
  | recheck
  | drain
  | periodic
  | spawn
  | wait
  | drainTasks
  /-- `drain_tasks` has aborted what is left -/
  | aborting
  | final
  | finished
  deriving DecidableEq, Repr

/-- The engine of one process, its tasks, and the checkpoint file with what was recorded when it
was saved. -/
structure CrawlState (υ κ η : Type) where
  scheduler : CrawlScheduler υ κ
  tasks : List (CrawlTask υ)
  collected : Nat
  results : List (DiscoveredUrl υ)
  pagesCrawled : Nat
  banned : List η
  shutdown : Bool
  cancelled : Bool
  phase : EnginePhase
  disk : Option (CrawlCheckpoint υ η × CrawlLog υ)
  /-- this process deleted its checkpoint -/
  deleted : Bool
  trace : CrawlTrace υ η

/-- One move of the engine; `saved` says whether a checkpoint that is to be saved here is. -/
inductive EngineMove
  | head (saved : Bool)
  | reap (task : Nat)
  | reapDone
  | recheck
  | drain
  | periodic (saved : Bool)
  /-- the concurrency limit of the moment -/
  | spawn (limit : Nat)
  | wait (limit : Nat) (joined : Option Nat)
  | join (task : Nat)
  | timeout
  | drained
  | final (saved : Bool)
  deriving DecidableEq, Repr

inductive CrawlAction (υ : Type)
  | task (i : Nat) (move : TaskMove υ)
  | engine (move : EngineMove)
  /-- the signal handler sets the shutdown flag -/
  | signal
  /-- the signal handler or a holder of `cancel_handle` fires the token -/
  | cancel
  /-- the process ends, killed or not, and another one starts from the checkpoint file -/
  | restart
  deriving DecidableEq, Repr

section Engine

variable {υ κ η : Type} [LinearOrder υ] [DecidableEq κ] [DecidableEq η] (cfg : CrawlConfig υ κ η)

namespace CrawlState

/-- `ban_waf_domain`. -/
def ban (s : CrawlState υ κ η) (host : Option η) : CrawlState υ κ η :=
  match host with
  | none => s
  | some domain =>
      { s with
        banned := if domain ∈ s.banned then s.banned else s.banned ++ [domain]
        trace := { s.trace with everBanned := s.trace.everBanned ++ [domain] } }

/-- What a task's move does to the shared state. -/
def effect (s : CrawlState υ κ η) (d : DiscoveredUrl υ) : TaskEffect υ → CrawlState υ κ η
  | .quiet => s
  | .ban => s.ban (cfg.host d.url)
  | .fetched => { s with pagesCrawled := s.pagesCrawled + 1 }
  | .counted => { s with collected := s.collected + 1 }
  | .sent finalUrl =>
      { s with
        results := s.results ++ [{ d with url := finalUrl }]
        trace := { s.trace with landed := s.trace.landed ++ [(d.url, finalUrl)] } }
  | .marked link =>
      { s with
        scheduler := { s.scheduler with
          queue := { s.scheduler.queue with
            seen := cfg.canonical link :: s.scheduler.queue.seen } } }
  | .pushed link =>
      { s with
        scheduler := { s.scheduler with queue := s.scheduler.queue.push link .link }
        trace := { s.trace with
          accepted := s.trace.accepted ++ [link.url]
          log := { s.trace.log with
            discoveries := (some d.url, link.url) :: s.trace.log.discoveries } } }

/-- The task at `i` stands at `pc` from now on. -/
def setPc (s : CrawlState υ κ η) (i : Nat) (d : DiscoveredUrl υ) (pc : TaskPc υ) :
    CrawlState υ κ η :=
  { s with
    tasks := s.tasks.set i ⟨d, pc⟩
    trace := match pc with
      | .ended result =>
          { s.trace with
            log := { s.trace.log with ended := s.trace.log.ended ++ [(d.url, result)] } }
      | _ => s.trace }

/-- A move of the task at `i`. -/
def taskStep (s : CrawlState υ κ η) (i : Nat) (move : TaskMove υ) : Option (CrawlState υ κ η) :=
  match s.tasks[i]? with
  | none => none
  | some task =>
      match taskMove cfg s.cancelled (s.phase == .aborting) s.scheduler.queue.seen task.discovered
        task.pc move with
      | none => none
      | some (pc, effect) => some ((s.effect cfg task.discovered effect).setPc i task.discovered pc)

/-- `collector.is_full`. -/
def isFull (s : CrawlState υ κ η) : Bool := cfg.maxPages ≤ s.collected

/-- `build_checkpoint_state`. -/
def buildCheckpointState (s : CrawlState υ κ η) : CrawlCheckpoint υ η :=
  ⟨s.scheduler.visitedUrls, s.scheduler.snapshotPendingBounded cfg.maxPages, s.pagesCrawled,
    s.banned⟩

/-- `save_checkpoint`. -/
def saveCheckpoint (s : CrawlState υ κ η) (saved : Bool) : CrawlState υ κ η :=
  if cfg.checkpointing && saved then
    { s with disk := some (s.buildCheckpointState cfg, s.trace.log) }
  else s

/-- One turn of `spawn_available_tasks`: a task for the next URL, or the end of the loop. -/
def spawnNext (s : CrawlState υ κ η) (limit : Nat) : CrawlState υ κ η :=
  if s.tasks.length < limit then
    match s.scheduler.nextUrl cfg.canonical with
    | (none, scheduler) => { s with scheduler := scheduler, phase := .wait }
    | (some d, scheduler) =>
        { s with
          scheduler := scheduler
          tasks := s.tasks ++ [⟨d, .rateLimit⟩]
          trace := { s.trace with
            started := s.trace.started ++ [d]
            log := { s.trace.log with dispatched := s.trace.log.dispatched ++ [d.url] } } }
  else { s with phase := .wait }

/-- A task that has ended leaves the join set. -/
def reapTask (s : CrawlState υ κ η) (i : Nat) : Option (CrawlState υ κ η) :=
  match s.tasks[i]? with
  | some task => if task.pc.isEnded then some { s with tasks := s.tasks.eraseIdx i } else none
  | none => none

/-- The engine's moves, phase by phase. -/
def engineStep (s : CrawlState υ κ η) (move : EngineMove) : Option (CrawlState υ κ η) :=
  match s.phase, move with
  | .head, .head saved =>
      if s.scheduler.hasPendingWork || !s.tasks.isEmpty then
        if s.shutdown then
          some ({ s with cancelled := true, phase := .drainTasks }.saveCheckpoint cfg saved)
        else if s.isFull cfg then some { s with phase := .drainTasks }
        else some { s with phase := .reap }
      else some { s with phase := .drainTasks }
  | .reap, .reap i => s.reapTask i
  | .reap, .reapDone =>
      if s.tasks.all (!·.pc.isEnded) then some { s with phase := .recheck } else none
  | .recheck, .recheck =>
      if s.isFull cfg then some { s with cancelled := true, phase := .drainTasks }
      else some { s with phase := .drain }
  | .drain, .drain =>
      some { s with scheduler := s.scheduler.drainDiscovered, phase := .periodic }
  | .periodic, .periodic saved =>
      if cfg.checkpointInterval = 0 ∨ s.pagesCrawled = 0 ∨
          s.pagesCrawled % cfg.checkpointInterval ≠ 0 then some { s with phase := .spawn }
      else some ({ s with phase := .spawn }.saveCheckpoint cfg saved)
  | .spawn, .spawn limit => if limit ≤ cfg.concurrency then some (s.spawnNext cfg limit) else none
  | .wait, .wait limit joined =>
      if limit ≤ cfg.concurrency then
        if limit ≤ s.tasks.length && s.scheduler.hasPendingWork then
          match joined with
          | some i => (s.reapTask i).map fun s => { s with phase := .head }
          | none => some { s with phase := .head }
        else some { s with phase := .head }
      else none
  | .drainTasks, .join i => s.reapTask i
  | .drainTasks, .timeout => some { s with phase := .aborting }
  | .aborting, .join i => s.reapTask i
  | .drainTasks, .drained | .aborting, .drained =>
      if s.tasks.isEmpty then some { s with phase := .final } else none
  | .final, .final saved =>
      -- a crawl that is complete deletes its checkpoint
      if !s.shutdown && !s.scheduler.hasPendingWork && !s.isFull cfg then
        some { s with
          disk := if cfg.checkpointing then none else s.disk
          deleted := cfg.checkpointing
          phase := .finished }
      else some ({ s with phase := .finished }.saveCheckpoint cfg saved)
  | _, _ => none

/-- A new process: `restore_checkpoint_state` from the file, then the seed. -/
def startProcess (disk : Option (CrawlCheckpoint υ η × CrawlLog υ)) (everBanned : List η) :
    CrawlState υ κ η :=
  let checkpoint := (disk.map (·.1)).getD ⟨[], [], 0, []⟩
  let log := (disk.map (·.2)).getD ⟨[], [], []⟩
  { scheduler := ((CrawlScheduler.new.restoreVisited cfg.canonical checkpoint.visited).restorePending
      checkpoint.queued).seed cfg.canonical cfg.seedUrl
    tasks := []
    collected := 0
    results := []
    pagesCrawled := 0
    banned := checkpoint.bannedDomains
    shutdown := false
    cancelled := false
    phase := if cfg.seedAllowed then .head else .finished
    disk := disk
    deleted := false
    trace :=
      { accepted := checkpoint.queued ++ [cfg.seedUrl]
        restored := checkpoint.visited
        started := []
        landed := []
        log := { log with discoveries := (none, cfg.seedUrl) :: log.discoveries }
        everBanned := everBanned } }

/-- A crawl from an empty state directory. -/
def init : CrawlState υ κ η := startProcess cfg none []

end CrawlState

/-- One action of a history. -/
def crawlStep (s : CrawlState υ κ η) : CrawlAction υ → Option (CrawlState υ κ η)
  | .task i move => s.taskStep cfg i move
  | .engine move => s.engineStep cfg move
  | .signal => some { s with shutdown := true }
  | .cancel => some { s with cancelled := true }
  | .restart => some (CrawlState.startProcess cfg s.disk s.trace.everBanned)

end Engine

end Webfang
