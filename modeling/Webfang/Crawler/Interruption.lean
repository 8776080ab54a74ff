import Webfang.Crawler.Completion

/-!
# Crawls that are stopped

A URL is visited from its dispatch on, whether its task comes to an end or is cancelled or
aborted.  As long as none is, what is visited has been processed, and an interrupted crawl
keeps the rest in its checkpoint; a crawl whose tasks were cancelled by anything but a shutdown
takes itself for complete.
-/

set_option linter.unusedSectionVars false

namespace Webfang

open StepSystem

/-- The task ran to completion: neither cancelled nor aborted. -/
def TaskEnd.ran : TaskEnd → Bool
  | .done | .skipped | .failed => true
  | .cancelled | .aborted => false

/-- The page was fetched, or the task failed. -/
def TaskEnd.fetchedOrFailed : TaskEnd → Bool
  | .done | .failed => true
  | .skipped | .cancelled | .aborted => false

section Interruption

variable {υ κ η : Type} [LinearOrder υ] [DecidableEq κ] [DecidableEq η] {cfg : CrawlConfig υ κ η}
variable {good : TaskEnd → Bool}

/-- The URL, up to its canonical form, was dispatched and its task ended as `good` asks. -/
def CrawlLog.EndedAs (cfg : CrawlConfig υ κ η) (good : TaskEnd → Bool) (log : CrawlLog υ)
    (url : υ) : Prop :=
  ∃ entry ∈ log.ended, good entry.2 = true ∧ entry.1 ∈ log.dispatched ∧
    cfg.canonical entry.1 = cfg.canonical url

instance (log : CrawlLog υ) (url : υ) : Decidable (log.EndedAs cfg good url) :=
  inferInstanceAs (Decidable (∃ entry ∈ log.ended, _))

theorem CrawlLog.EndedAs.mono {log later : CrawlLog υ} {url : υ}
    (endedAs : log.EndedAs cfg good url) (dispatched : ∀ u ∈ log.dispatched, u ∈ later.dispatched)
    (ended : ∀ entry ∈ log.ended, entry ∈ later.ended) : later.EndedAs cfg good url := by
  obtain ⟨entry, member, fine, sent, same⟩ := endedAs
  exact ⟨entry, ended entry member, fine, dispatched _ sent, same⟩

namespace CrawlState

/-- What was dispatched runs or has ended well, and what was restored has. -/
structure Finishing (cfg : CrawlConfig υ κ η) (good : TaskEnd → Bool) (s : CrawlState υ κ η) :
    Prop where
  started : ∀ d ∈ s.trace.started, d.url ∈ s.trace.log.dispatched ∧
    (s.Runs d ∨ ∃ e, good e = true ∧ (d.url, e) ∈ s.trace.log.ended)
  restored : ∀ url ∈ s.trace.restored, s.trace.log.EndedAs cfg good url

/-- When no task runs, what is visited has ended well. -/
theorem Finishing.visited {s : CrawlState υ κ η} (finishing : s.Finishing cfg good)
    (accounted : s.Accounted cfg) (tasks : s.tasks = []) {url : υ}
    (visited : cfg.canonical url ∈ s.scheduler.visited) : s.trace.log.EndedAs cfg good url := by
  rcases accounted.visited _ visited with ⟨u, member, same⟩ | ⟨d, member, same⟩
  · obtain ⟨entry, ended, fine, sent, agrees⟩ := finishing.restored u member
    exact ⟨entry, ended, fine, sent, agrees.trans same⟩
  · obtain ⟨sent, ⟨task, running, -⟩ | ⟨e, fine, ended⟩⟩ := finishing.started d member
    · rw [tasks] at running
      cases running
    · exact ⟨(d.url, e), ended, fine, sent, same⟩

/-! ## Steps -/

/-- A step that gives up no task keeps the tasks finishing. -/
theorem Finishing.taskStep {s t : CrawlState υ κ η} {i : Nat} {move : TaskMove υ}
    (finishing : s.Finishing cfg good) (step : s.taskStep cfg i move = some t)
    (well : ∀ d pc result effect, taskMove cfg s.cancelled (s.phase == .aborting)
      s.scheduler.queue.seen d pc move = some (.ended result, effect) → good result = true) :
    t.Finishing cfg good := by
  have same := taskStep_sameEngine step
  obtain ⟨task, pc, effect, found, moved, rfl⟩ := taskStep_cases step
  refine ⟨fun d member => ?_, fun url member => ?_⟩
  · rw [same.started] at member
    obtain ⟨sent, running | ⟨e, fine, ended⟩⟩ := finishing.started d member
    · refine ⟨same.dispatched ▸ sent, (runs_taskStep found running).imp_right ?_⟩
      rintro ⟨e, rfl, ended⟩
      exact ⟨e, well _ _ _ _ moved, ended⟩
    · exact ⟨same.dispatched ▸ sent, .inr ⟨e, fine, ended_taskStep _ _ _ _ ended⟩⟩
  · rw [same.restored] at member
    exact (finishing.restored url member).mono (fun u sent => same.dispatched ▸ sent)
      fun entry ended => ended_taskStep _ _ _ _ ended

/-- Steps that keep the records and the running tasks. -/
theorem Finishing.frame {s t : CrawlState υ κ η} (finishing : s.Finishing cfg good)
    (trace : t.trace = s.trace)
    (tasks : ∀ task ∈ s.tasks, task.pc.isEnded = false → task ∈ t.tasks) :
    t.Finishing cfg good := by
  refine ⟨fun d member => ?_, ?_⟩
  · rw [trace] at member ⊢
    obtain ⟨sent, running | ended⟩ := finishing.started d member
    · obtain ⟨task, here, same, runs⟩ := running
      exact ⟨sent, .inl ⟨task, tasks task here runs, same, runs⟩⟩
    · exact ⟨sent, .inr ended⟩
  · rw [trace]
    exact finishing.restored

theorem Finishing.spawnNext {s : CrawlState υ κ η} {limit : Nat}
    (finishing : s.Finishing cfg good) (fewer : s.tasks.length < limit) :
    (s.spawnNext cfg limit).Finishing cfg good := by
  rcases spawnNext_cases cfg fewer with
    ⟨next, -⟩ | ⟨skipped, d, rest, next, -⟩
  · rw [next]
    exact finishing.frame rfl fun task member _ => member
  · rw [next]
    refine ⟨fun d' member => ?_, fun url member => ?_⟩
    · rcases List.mem_append.mp member with old | new
      · obtain ⟨sent, running⟩ := finishing.started d' old
        refine ⟨List.mem_append_left _ sent, running.imp_left ?_⟩
        rintro ⟨task, here, same, runs⟩
        exact ⟨task, List.mem_append_left _ here, same, runs⟩
      · rw [List.mem_singleton.mp new]
        exact ⟨List.mem_append_right _ (List.mem_singleton.mpr rfl),
          .inl ⟨⟨d, .rateLimit⟩, List.mem_append_right _ (List.mem_singleton.mpr rfl), rfl, rfl⟩⟩
    · exact (finishing.restored url member).mono (fun u sent => List.mem_append_left _ sent)
        fun entry ended => ended

theorem Finishing.engineMoved {s t : CrawlState υ κ η} (finishing : s.Finishing cfg good)
    (moved : EngineMoved cfg s t) : t.Finishing cfg good := by
  cases moved with
  | @pass phase cancelled saved passes fires =>
      obtain ⟨-, trace, tasks, -⟩ := saveCheckpoint_frame cfg
        { s with phase := phase, cancelled := cancelled } saved
      refine finishing.frame trace fun task member _ => ?_
      rw [tasks]
      exact member
  | reap found ended here =>
      exact finishing.frame rfl fun task member running => runs_eraseIdx found ended member running
  | joined found ended here pending =>
      exact finishing.frame rfl fun task member running => runs_eraseIdx found ended member running
  | drain here => exact finishing.frame rfl fun task member _ => member
  | spawn here room fewer => exact finishing.spawnNext fewer
  | delete here running pending notFull => exact finishing.frame rfl fun task member _ => member

/-- The checkpoint on disk, if there is one, calls visited only what has ended well. -/
def SettledDisk (cfg : CrawlConfig υ κ η) (good : TaskEnd → Bool)
    (disk : Option (CrawlCheckpoint υ η × CrawlLog υ)) : Prop :=
  ∀ file ∈ disk, ∀ url ∈ file.1.visited, file.2.EndedAs cfg good url

instance (disk : Option (CrawlCheckpoint υ η × CrawlLog υ)) :
    Decidable (SettledDisk cfg good disk) :=
  inferInstanceAs (Decidable (∀ file ∈ disk, _))

theorem finishing_startProcess {disk : Option (CrawlCheckpoint υ η × CrawlLog υ)}
    (settled : SettledDisk cfg good disk) (everBanned : List η) :
    (startProcess cfg disk everBanned).Finishing cfg good := by
  refine ⟨fun d member => (nomatch member), fun url member => ?_⟩
  cases disk with
  | none => cases member
  | some file => exact settled file rfl url member

end CrawlState

/-! ## Nothing is lost by an interruption -/

/-- No task is cancelled or aborted here, and a new process finds only URLs whose tasks ran to
completion among the visited ones. -/
def GivesUpNothing (cfg : CrawlConfig υ κ η) (s : CrawlState υ κ η) : CrawlAction υ → Prop
  | .task _ .cancelWait | .task _ .abort => False
  | .restart => CrawlState.SettledDisk cfg TaskEnd.ran s.disk
  | _ => True

instance (s : CrawlState υ κ η) (a : CrawlAction υ) : Decidable (GivesUpNothing cfg s a) :=
  match a with
  | .task _ .cancelWait | .task _ .abort => .isFalse id
  | .restart => inferInstanceAs (Decidable (CrawlState.SettledDisk cfg TaskEnd.ran s.disk))
  | .task _ .ready | .task _ (.acquire _) | .task _ (.fetch _) | .task _ (.pipeline _)
    | .task _ .count | .task _ .send | .task _ (.link _) | .task _ .push | .task _ .finish
    | .task _ .panic | .engine _ | .signal | .cancel => .isTrue True.intro

theorem finishing_crawlStep {s t : CrawlState υ κ η} {a : CrawlAction υ}
    (finishing : s.Finishing cfg TaskEnd.ran) (keeps : GivesUpNothing cfg s a)
    (step : crawlStep cfg s a = some t) : t.Finishing cfg TaskEnd.ran := by
  rcases crawlStep_cases step with ⟨i, move, rfl, moved⟩ | ⟨move, rfl, moved⟩ | ⟨rfl, rfl⟩ |
    ⟨rfl, rfl⟩ | ⟨rfl, rfl⟩
  · refine finishing.taskStep moved fun d pc result effect ended => ?_
    rcases CrawlState.taskMove_ended ended with rfl | rfl | ⟨rfl, -⟩ | ⟨-, rfl⟩ | ⟨-, rfl, -⟩
    · rfl
    · rfl
    · rfl
    · exact keeps.elim
    · exact keeps.elim
  · exact finishing.engineMoved moved
  · exact finishing.frame rfl fun task member _ => member
  · exact finishing.frame rfl fun task member _ => member
  · exact CrawlState.finishing_startProcess keeps ..

/-- The process that is started from the checkpoint of this state. -/
def CrawlState.resumed (cfg : CrawlConfig υ κ η) (s : CrawlState υ κ η) : CrawlState υ κ η :=
  startProcess cfg (some (s.buildCheckpointState cfg, s.trace.log)) s.trace.everBanned

/-- A frontier within the budget is saved whole. -/
theorem CrawlScheduler.mem_snapshotPendingBounded {c : CrawlScheduler υ κ} {budget : Nat}
    (fits : c.pending.length + c.queue.heap.length ≤ budget) {url : υ} :
    url ∈ c.snapshotPendingBounded budget ↔
      (∃ d ∈ c.pending, d.url = url) ∨ ∃ p ∈ c.queue.heap, p.url.url = url := by
  have heap : (UrlQueue.popOrder c.queue.heap).length = c.queue.heap.length := by
    simpa using (UrlQueue.popOrder_perm c.queue.heap).length_eq
  unfold snapshotPendingBounded UrlQueue.snapshotUrlsBounded
  rw [List.take_of_length_le (by simp [heap]; omega), List.take_of_length_le (by simp [heap]; omega)]
  simp

/-- A task is cancelled, or finds no session, only in a crawl that is shut down or full, and a
new process finds only URLs that were fetched or failed among the visited ones. -/
def CutsOnlyInterrupted (cfg : CrawlConfig υ κ η) (s : CrawlState υ κ η) : CrawlAction υ → Prop
  | .task _ .cancelWait | .task _ (.acquire false) => s.shutdown = true ∨ s.isFull cfg = true
  | .restart => CrawlState.SettledDisk cfg TaskEnd.fetchedOrFailed s.disk
  | _ => True

instance (s : CrawlState υ κ η) (a : CrawlAction υ) : Decidable (CutsOnlyInterrupted cfg s a) :=
  match a with
  | .task _ .cancelWait | .task _ (.acquire false) => inferInstanceAs (Decidable (_ ∨ _))
  | .restart =>
      inferInstanceAs (Decidable (CrawlState.SettledDisk cfg TaskEnd.fetchedOrFailed s.disk))
  | .task _ (.acquire true) | .task _ .ready | .task _ (.fetch _) | .task _ (.pipeline _)
    | .task _ .count | .task _ .send | .task _ (.link _) | .task _ .push | .task _ .finish
    | .task _ .panic | .task _ .abort | .engine _ | .signal | .cancel => .isTrue True.intro

namespace CrawlState

/-- A crawl that is neither shut down nor full has lost no task, and one that deleted its
checkpoint never did. -/
structure Honest (cfg : CrawlConfig υ κ η) (s : CrawlState υ κ η) : Prop where
  running : s.shutdown = true ∨ s.isFull cfg = true ∨ s.Finishing cfg TaskEnd.fetchedOrFailed
  deleted : s.deleted = true → s.Finishing cfg TaskEnd.fetchedOrFailed

/-- The engine's moves neither shut the crawl down nor collect. -/
theorem EngineMoved.counts {s t : CrawlState υ κ η} (moved : EngineMoved cfg s t) :
    t.shutdown = s.shutdown ∧ t.collected = s.collected := by
  cases moved with
  | @pass phase cancelled saved passes fires =>
      obtain ⟨-, -, -, -, shutdown, -, collected, -⟩ := saveCheckpoint_frame cfg
        { s with phase := phase, cancelled := cancelled } saved
      exact ⟨shutdown, collected⟩
  | reap | joined | drain | delete => exact ⟨rfl, rfl⟩
  | spawn here room fewer =>
      rcases spawnNext_cases cfg fewer with ⟨next, -⟩ | ⟨skipped, d, rest, next, -⟩ <;>
        rw [next] <;> exact ⟨rfl, rfl⟩

theorem EngineMoved.deleted {s t : CrawlState υ κ η} (moved : EngineMoved cfg s t)
    (phased : s.Phased cfg) (gone : t.deleted = true) :
    s.shutdown = false ∧ s.isFull cfg = false := by
  have stays : s.deleted ≠ true := fun deleted => moved.not_finished (phased.deleted deleted).1
  cases moved with
  | @pass phase cancelled saved passes fires =>
      obtain ⟨-, -, -, -, -, -, -, deleted, -⟩ := saveCheckpoint_frame cfg
        { s with phase := phase, cancelled := cancelled } saved
      exact absurd (deleted.symm.trans gone) stays
  | reap | joined | drain => exact absurd gone stays
  | spawn here room fewer =>
      rcases spawnNext_cases cfg fewer with ⟨next, -⟩ | ⟨skipped, d, rest, next, -⟩ <;>
        rw [next] at gone <;> exact absurd gone stays
  | delete here running pending notFull => exact ⟨running, notFull⟩

/-- A task that moves in a phase that aborts belongs to a crawl that is shut down or full. -/
theorem Phased.interrupted {s : CrawlState υ κ η} {i : Nat} {task : CrawlTask υ}
    (phased : s.Phased cfg) (found : s.tasks[i]? = some task)
    (aborting : (s.phase == .aborting) = true) : s.shutdown = true ∨ s.isFull cfg = true := by
  rcases phased.leaving (.inr (.inl (beq_iff_eq.mp aborting))) with shutdown | full | quiescent
  · exact .inl shutdown
  · exact .inr full
  · rw [quiescent.2.2] at found
    cases found

theorem Honest.taskStep {s t : CrawlState υ κ η} {i : Nat} {move : TaskMove υ}
    (honest : s.Honest cfg) (phased : s.Phased cfg)
    (cuts : CutsOnlyInterrupted cfg s (.task i move)) (step : s.taskStep cfg i move = some t) :
    t.Honest cfg := by
  have same := taskStep_sameEngine step
  have interrupted : s.shutdown = true ∨ s.isFull cfg = true →
      t.shutdown = true ∨ t.isFull cfg = true :=
    Or.imp (fun shutdown => same.shutdown.trans shutdown) (taskStep_isFull step)
  refine ⟨?_, fun gone => ?_⟩
  · by_cases cut : s.shutdown = true ∨ s.isFull cfg = true
    · exact (interrupted cut).elim .inl fun full => .inr (.inl full)
    · have finishing := (honest.running.resolve_left fun h => cut (.inl h)).resolve_left
        fun h => cut (.inr h)
      obtain ⟨task, -, -, found, -, -⟩ := taskStep_cases step
      refine .inr (.inr (finishing.taskStep step fun d pc result effect ended => ?_))
      rcases taskMove_ended ended with rfl | rfl | ⟨-, rfl⟩ | ⟨-, rfl⟩ | ⟨-, rfl, aborting⟩
      · rfl
      · rfl
      · exact absurd cuts cut
      · exact absurd cuts cut
      · exact absurd (phased.interrupted found aborting) cut
  · rw [same.deleted] at gone
    exact absurd (phased.deleted gone).2.2.2 (taskStep_tasks step).1

theorem Honest.engineMoved {s t : CrawlState υ κ η} (honest : s.Honest cfg)
    (phased : s.Phased cfg) (moved : EngineMoved cfg s t) : t.Honest cfg := by
  obtain ⟨shutdown, collected⟩ := moved.counts
  have full : t.isFull cfg = s.isFull cfg := by
    unfold isFull
    rw [collected]
  refine ⟨?_, fun gone => ?_⟩
  · rw [shutdown, full]
    exact honest.running.imp_right (Or.imp_right fun finishing => finishing.engineMoved moved)
  · obtain ⟨running, notFull⟩ := moved.deleted phased gone
    rcases honest.running with shut | full | finishing
    · rw [running] at shut
      cases shut
    · rw [notFull] at full
      cases full
    · exact finishing.engineMoved moved

end CrawlState

theorem honest_crawlStep {s t : CrawlState υ κ η} {a : CrawlAction υ}
    (honest : s.Honest cfg ∧ s.Phased cfg) (cuts : CutsOnlyInterrupted cfg s a)
    (step : crawlStep cfg s a = some t) : t.Honest cfg ∧ t.Phased cfg := by
  obtain ⟨honest, phased⟩ := honest
  refine ⟨?_, phased_crawlStep phased step⟩
  rcases crawlStep_cases step with ⟨i, move, rfl, moved⟩ | ⟨move, rfl, moved⟩ | ⟨rfl, rfl⟩ |
    ⟨rfl, rfl⟩ | ⟨rfl, rfl⟩
  · exact honest.taskStep phased cuts moved
  · exact honest.engineMoved phased moved
  · exact ⟨.inl rfl, fun gone => (honest.deleted gone).frame rfl fun task member _ => member⟩
  · exact ⟨honest.running.imp_right (Or.imp_right fun finishing =>
      finishing.frame rfl fun task member _ => member),
      fun gone => (honest.deleted gone).frame rfl fun task member _ => member⟩
  · exact ⟨.inr (.inr (CrawlState.finishing_startProcess cuts ..)), fun gone => nomatch gone⟩

end Interruption

/-! ## Crawls of the sample site -/

/-- The seed is fetched, its link is pushed, and a signal ends the crawl. -/
def signalledCrawl : List (CrawlAction String) :=
  loopTurn [] 2 ++ fetchPage 0 "https://site.test/" ["https://site.test/a"] ++ pushLinks 0 1 ++
    [.signal, .engine (.head true), .engine (.join 0), .engine .drained]

/-- The seed's task waits for the rate limiter when the signal comes. -/
def cancelledSeed : List (CrawlAction String) :=
  loopTurn [] 2 ++ [.signal, .engine (.head true), .task 0 .cancelWait, .engine (.join 0),
    .engine .drained]

end Webfang
