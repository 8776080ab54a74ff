import Webfang.Crawler.Engine

/-!
# What one step of a crawl can do

One inversion per kind of step: a task's move and its one effect, the engine's moves with
their guards, a new process.  The effects and the moves leave the rest of the state alone.
-/

set_option linter.unusedSectionVars false

namespace Webfang

section Steps

variable {υ κ η : Type} [LinearOrder υ] [DecidableEq κ] [DecidableEq η] {cfg : CrawlConfig υ κ η}

namespace CrawlState

/-! ## Tasks -/

theorem taskStep_cases {s t : CrawlState υ κ η} {i : Nat} {move : TaskMove υ}
    (step : s.taskStep cfg i move = some t) :
    ∃ task pc effect, s.tasks[i]? = some task ∧
      taskMove cfg s.cancelled (s.phase == .aborting) s.scheduler.queue.seen task.discovered
        task.pc move = some (pc, effect) ∧
      t = (s.effect cfg task.discovered effect).setPc i task.discovered pc := by
  unfold taskStep at step
  split at step
  · cases step
  · rename_i task found
    split at step
    · cases step
    · rename_i pc effect moved
      cases step
      exact ⟨task, pc, effect, found, moved, rfl⟩

/-- What no effect touches. -/
structure SameEngine (s t : CrawlState υ κ η) : Prop where
  visited : t.scheduler.visited = s.scheduler.visited
  visitedUrls : t.scheduler.visitedUrls = s.scheduler.visitedUrls
  pending : t.scheduler.pending = s.scheduler.pending
  shutdown : t.shutdown = s.shutdown
  cancelled : t.cancelled = s.cancelled
  phase : t.phase = s.phase
  disk : t.disk = s.disk
  deleted : t.deleted = s.deleted
  restored : t.trace.restored = s.trace.restored
  started : t.trace.started = s.trace.started
  dispatched : t.trace.log.dispatched = s.trace.log.dispatched

variable (cfg) in
/-- A ban touches the banned hosts alone. -/
theorem effect_ban_eq (s : CrawlState υ κ η) (d : DiscoveredUrl υ) :
    ∃ banned everBanned, s.effect cfg d .ban =
      { s with banned := banned, trace := { s.trace with everBanned := everBanned } } := by
  rw [show s.effect cfg d .ban = s.ban (cfg.host d.url) from rfl]
  cases cfg.host d.url with
  | none => exact ⟨s.banned, s.trace.everBanned, rfl⟩
  | some domain => exact ⟨_, _, rfl⟩

theorem effect_sameEngine (s : CrawlState υ κ η) (d : DiscoveredUrl υ) (e : TaskEffect υ) :
    SameEngine s (s.effect cfg d e) := by
  cases e with
  | ban =>
      obtain ⟨banned, everBanned, same⟩ := s.effect_ban_eq cfg d
      rw [same]
      exact ⟨rfl, rfl, rfl, rfl, rfl, rfl, rfl, rfl, rfl, rfl, rfl⟩
  | quiet | fetched | counted | sent | marked | pushed =>
      exact ⟨rfl, rfl, rfl, rfl, rfl, rfl, rfl, rfl, rfl, rfl, rfl⟩

variable (cfg) in
/-- An effect leaves the tasks and their ends alone. -/
theorem effect_tasks (s : CrawlState υ κ η) (d : DiscoveredUrl υ) (e : TaskEffect υ) :
    (s.effect cfg d e).tasks = s.tasks ∧ (s.effect cfg d e).trace.log.ended = s.trace.log.ended := by
  cases e with
  | ban =>
      obtain ⟨banned, everBanned, same⟩ := s.effect_ban_eq cfg d
      rw [same]
      exact ⟨rfl, rfl⟩
  | quiet | fetched | counted | sent | marked | pushed => exact ⟨rfl, rfl⟩

theorem setPc_sameEngine (s : CrawlState υ κ η) (i : Nat) (d : DiscoveredUrl υ) (pc : TaskPc υ) :
    SameEngine s (s.setPc i d pc) := by
  cases pc <;> exact ⟨rfl, rfl, rfl, rfl, rfl, rfl, rfl, rfl, rfl, rfl, rfl⟩

theorem SameEngine.trans {s t u : CrawlState υ κ η} (first : SameEngine s t)
    (second : SameEngine t u) : SameEngine s u :=
  ⟨second.visited.trans first.visited, second.visitedUrls.trans first.visitedUrls,
    second.pending.trans first.pending, second.shutdown.trans first.shutdown,
    second.cancelled.trans first.cancelled, second.phase.trans first.phase,
    second.disk.trans first.disk, second.deleted.trans first.deleted,
    second.restored.trans first.restored, second.started.trans first.started,
    second.dispatched.trans first.dispatched⟩

/-- A task's move leaves the loop's own state alone. -/
theorem taskStep_sameEngine {s t : CrawlState υ κ η} {i : Nat} {move : TaskMove υ}
    (step : s.taskStep cfg i move = some t) : SameEngine s t := by
  obtain ⟨task, pc, effect, -, -, rfl⟩ := taskStep_cases step
  exact (s.effect_sameEngine task.discovered effect).trans (setPc_sameEngine ..)

/-- What a move of a task does, one constructor for each way on. -/
inductive TaskMoved (cfg : CrawlConfig υ κ η) (cancelled aborting : Bool) (seen : List κ)
    (d : DiscoveredUrl υ) : TaskPc υ → TaskMove υ → TaskPc υ → TaskEffect υ → Prop
  | admitted : TaskMoved cfg cancelled aborting seen d .rateLimit .ready .session .quiet
  | acquired : TaskMoved cfg cancelled aborting seen d .session (.acquire true) .fetch .quiet
  | fetched (finalUrl : υ) (links : List υ) :
    TaskMoved cfg cancelled aborting seen d .fetch (.fetch (.page finalUrl links))
      (.fetched finalUrl links) .fetched
  | passed (finalUrl : υ) (links : List υ) :
    TaskMoved cfg cancelled aborting seen d (.fetched finalUrl links) (.pipeline true)
      (.collect finalUrl links) .quiet
  | counted (finalUrl : υ) (links : List υ) :
    TaskMoved cfg cancelled aborting seen d (.collect finalUrl links) .count
      (.send finalUrl links) .counted
  | sent (finalUrl : υ) (links : List υ) :
    TaskMoved cfg cancelled aborting seen d (.send finalUrl links) .send
      (.extract finalUrl (if d.depth < cfg.maxDepth then links else [])) (.sent finalUrl)
  | marked (finalUrl link : υ) (links : List υ) (follows : cfg.followed link = true)
    (fresh : cfg.canonical link ∉ seen) :
    TaskMoved cfg cancelled aborting seen d (.extract finalUrl (link :: links)) (.link true)
      (.pushing finalUrl ⟨link, d.depth + 1, finalUrl⟩ links) (.marked link)
  | passedOver (finalUrl link : υ) (links : List υ) (robots : Bool)
    (refused : cfg.followed link = false ∨ robots = false ∨ cfg.canonical link ∈ seen) :
    TaskMoved cfg cancelled aborting seen d (.extract finalUrl (link :: links)) (.link robots)
      (.extract finalUrl links) .quiet
  | pushed (finalUrl : υ) (link : DiscoveredUrl υ) (links : List υ) :
    TaskMoved cfg cancelled aborting seen d (.pushing finalUrl link links) .push
      (.extract finalUrl links) (.pushed link)
  | finished (finalUrl : υ) :
    TaskMoved cfg cancelled aborting seen d (.extract finalUrl []) .finish (.ended .done) .quiet
  | filtered (finalUrl : υ) (links : List υ) :
    TaskMoved cfg cancelled aborting seen d (.fetched finalUrl links) (.pipeline false)
      (.ended .done) .quiet
  | skipped :
    TaskMoved cfg cancelled aborting seen d .session (.acquire false) (.ended .skipped) .quiet
  | failed (waf : Bool) :
    TaskMoved cfg cancelled aborting seen d .fetch (.fetch (.failed waf)) (.ended .failed)
      (if waf then .ban else .quiet)
  | panicked (pc : TaskPc υ) :
    TaskMoved cfg cancelled aborting seen d pc .panic (.ended .failed) .quiet
  | cancelled (fired : cancelled = true) :
    TaskMoved cfg cancelled aborting seen d .rateLimit .cancelWait (.ended .cancelled) .quiet
  | aborted (pc : TaskPc υ) (aborts : aborting = true) :
    TaskMoved cfg cancelled aborting seen d pc .abort (.ended .aborted) .quiet

theorem taskMove_moved {cancelled aborting : Bool} {seen : List κ} {d : DiscoveredUrl υ}
    {pc next : TaskPc υ} {move : TaskMove υ} {effect : TaskEffect υ}
    (moved : taskMove cfg cancelled aborting seen d pc move = some (next, effect)) :
    TaskMoved cfg cancelled aborting seen d pc move next effect := by
  unfold taskMove at moved
  split at moved
  · cases moved
    exact .admitted
  · split at moved
    · rename_i fired
      cases moved
      exact .cancelled fired
    · cases moved
  · rename_i available
    cases moved
    cases available with
    | true => exact .acquired
    | false => exact .skipped
  · cases moved
    exact .failed _
  · cases moved
    exact .fetched ..
  · rename_i passed
    cases moved
    cases passed with
    | true => exact .passed ..
    | false => exact .filtered ..
  · cases moved
    exact .counted ..
  · cases moved
    exact .sent ..
  · rename_i finalUrl link links robots
    split at moved
    · rename_i accepted
      simp only [Bool.and_eq_true, Bool.not_eq_true', List.contains_eq_mem,
        decide_eq_false_iff_not] at accepted
      obtain ⟨⟨follows, rfl⟩, fresh⟩ := accepted
      cases moved
      exact .marked _ _ _ follows fresh
    · rename_i refused
      cases moved
      refine .passedOver _ _ _ _ ?_
      simp only [Bool.and_eq_true, Bool.not_eq_true', List.contains_eq_mem,
        decide_eq_false_iff_not, not_and_or, Bool.not_eq_true, not_not, or_assoc] at refused
      exact refused
  · cases moved
    exact .pushed ..
  · cases moved
    exact .finished _
  · cases moved
  · cases moved
    exact .panicked _
  · split at moved
    · rename_i aborts
      cases moved
      exact .aborted _ aborts
    · cases moved
  · cases moved

/-- How a task comes to its end. -/
theorem taskMove_ended {cancelled aborting : Bool} {seen : List κ} {d : DiscoveredUrl υ}
    {pc : TaskPc υ} {move : TaskMove υ} {result : TaskEnd} {effect : TaskEffect υ}
    (moved : taskMove cfg cancelled aborting seen d pc move = some (.ended result, effect)) :
    result = .done ∨ result = .failed ∨ (result = .skipped ∧ move = .acquire false) ∨
      (result = .cancelled ∧ move = .cancelWait) ∨
      (result = .aborted ∧ move = .abort ∧ aborting = true) := by
  cases taskMove_moved moved with
  | finished | filtered => exact .inl rfl
  | failed | panicked => exact .inr (.inl rfl)
  | skipped => exact .inr (.inr (.inl ⟨rfl, rfl⟩))
  | cancelled fired => exact .inr (.inr (.inr (.inl ⟨rfl, rfl⟩)))
  | aborted pc aborts => exact .inr (.inr (.inr (.inr ⟨rfl, rfl, aborts⟩)))

/-! ## The engine -/

/-- The phases the loop may pass between, and what it has seen then. -/
inductive Passes (cfg : CrawlConfig υ κ η) (s : CrawlState υ κ η) : EnginePhase → Prop
  | exit (here : s.phase = .head) (pending : s.scheduler.pending = []) (tasks : s.tasks = []) :
    Passes cfg s .drainTasks
  | interrupt (here : s.phase = .head) (shutdown : s.shutdown = true) : Passes cfg s .drainTasks
  | full (here : s.phase = .head ∨ s.phase = .recheck) (full : s.isFull cfg = true) :
    Passes cfg s .drainTasks
  | turn (here : s.phase = .head) (work : s.scheduler.pending ≠ [] ∨ s.tasks ≠ []) :
    Passes cfg s .reap
  | reaped (here : s.phase = .reap) : Passes cfg s .recheck
  | notFull (here : s.phase = .recheck) : Passes cfg s .drain
  | saved (here : s.phase = .periodic) : Passes cfg s .spawn
  | atLimit (here : s.phase = .spawn) : Passes cfg s .wait
  | waited (here : s.phase = .wait) : Passes cfg s .head
  | timeout (here : s.phase = .drainTasks) : Passes cfg s .aborting
  | drained (here : s.phase = .drainTasks ∨ s.phase = .aborting) (tasks : s.tasks = []) :
    Passes cfg s .final
  | incomplete (here : s.phase = .final) : Passes cfg s .finished

/-- What a move of the engine does. -/
inductive EngineMoved (cfg : CrawlConfig υ κ η) (s : CrawlState υ κ η) : CrawlState υ κ η → Prop
  | pass {phase : EnginePhase} (cancelled saved : Bool) (passes : Passes cfg s phase)
    (fires : cancelled = s.cancelled ∨ (cancelled = true ∧ (s.shutdown = true ∨
      s.isFull cfg = true))) :
    EngineMoved cfg s ({ s with phase := phase, cancelled := cancelled }.saveCheckpoint cfg saved)
  | reap {i : Nat} {task : CrawlTask υ} (found : s.tasks[i]? = some task)
    (ended : task.pc.isEnded = true)
    (here : s.phase = .reap ∨ s.phase = .drainTasks ∨ s.phase = .aborting) :
    EngineMoved cfg s { s with tasks := s.tasks.eraseIdx i }
  | joined {i : Nat} {task : CrawlTask υ} (found : s.tasks[i]? = some task)
    (ended : task.pc.isEnded = true) (here : s.phase = .wait)
    (pending : s.scheduler.pending ≠ []) :
    EngineMoved cfg s { s with tasks := s.tasks.eraseIdx i, phase := .head }
  | drain (here : s.phase = .drain) :
    EngineMoved cfg s { s with scheduler := s.scheduler.drainDiscovered, phase := .periodic }
  | spawn {limit : Nat} (here : s.phase = .spawn) (room : limit ≤ cfg.concurrency)
    (fewer : s.tasks.length < limit) : EngineMoved cfg s (s.spawnNext cfg limit)
  | delete (here : s.phase = .final) (running : s.shutdown = false)
    (pending : s.scheduler.pending = []) (notFull : s.isFull cfg = false) :
    EngineMoved cfg s
      { s with
        disk := if cfg.checkpointing then none else s.disk
        deleted := cfg.checkpointing
        phase := .finished }

theorem saveCheckpoint_false (s : CrawlState υ κ η) : s.saveCheckpoint cfg false = s := by
  unfold saveCheckpoint
  rw [Bool.and_false]
  rfl

/-- A phase change without a save. -/
theorem EngineMoved.quietly {s : CrawlState υ κ η} {phase : EnginePhase}
    (passes : Passes cfg s phase) : EngineMoved cfg s { s with phase := phase } := by
  have moved : EngineMoved cfg s _ := .pass s.cancelled false passes (.inl rfl)
  rw [saveCheckpoint_false] at moved
  exact moved

theorem hasPendingWork_eq_false {c : CrawlScheduler υ κ} :
    c.hasPendingWork = false ↔ c.pending = [] := by
  simp [CrawlScheduler.hasPendingWork]

theorem reapTask_cases {s t : CrawlState υ κ η} {i : Nat} (step : s.reapTask i = some t) :
    ∃ task, s.tasks[i]? = some task ∧ task.pc.isEnded = true ∧
      t = { s with tasks := s.tasks.eraseIdx i } := by
  unfold reapTask at step
  split at step
  · rename_i task found
    split at step
    · rename_i ended
      cases step
      exact ⟨task, found, ended, rfl⟩
    · cases step
  · cases step

/-- The moves of the `while` condition and the checks behind it. -/
theorem head_moved {s t : CrawlState υ κ η} {saved : Bool} (here : s.phase = .head)
    (step : s.engineStep cfg (.head saved) = some t) : EngineMoved cfg s t := by
  unfold engineStep at step
  rw [here] at step
  dsimp only at step
  split at step
  · rename_i work
    rw [Bool.or_eq_true] at work
    split at step
    · rename_i shutdown
      cases step
      exact .pass true saved (.interrupt here shutdown) (.inr ⟨rfl, .inl shutdown⟩)
    · split at step
      · rename_i full
        cases step
        exact .quietly (.full (.inl here) full)
      · cases step
        refine .quietly (.turn here (work.imp ?_ ?_))
        · intro pending empty
          rw [hasPendingWork_eq_false.mpr empty] at pending
          cases pending
        · intro tasks empty
          rw [empty] at tasks
          cases tasks
  · rename_i none
    rw [Bool.or_eq_true, not_or, Bool.not_eq_true, Bool.not_eq_true] at none
    cases step
    exact .quietly (.exit here (hasPendingWork_eq_false.mp none.1) (by simpa using none.2))

/-- The moves of `wait_for_task`. -/
theorem wait_moved {s t : CrawlState υ κ η} {limit : Nat} {joined : Option Nat}
    (here : s.phase = .wait) (step : s.engineStep cfg (.wait limit joined) = some t) :
    EngineMoved cfg s t := by
  unfold engineStep at step
  rw [here] at step
  dsimp only at step
  split at step
  · split at step
    · rename_i waits
      rw [Bool.and_eq_true] at waits
      cases joined with
      | none =>
          cases step
          exact .quietly (.waited here)
      | some i =>
          obtain ⟨u, reaped, rfl⟩ := Option.map_eq_some_iff.mp step
          obtain ⟨task, found, ended, rfl⟩ := reapTask_cases reaped
          refine .joined found ended here fun empty => ?_
          rw [hasPendingWork_eq_false.mpr empty] at waits
          cases waits.2
    · cases step
      exact .quietly (.waited here)
  · cases step

/-- Every move of the engine is one of the moves above. -/
theorem engineStep_moved {s t : CrawlState υ κ η} {move : EngineMove}
    (step : s.engineStep cfg move = some t) : EngineMoved cfg s t := by
  have all := step
  unfold engineStep at step
  split at step
  · exact head_moved ‹_› all
  · rename_i i here
    obtain ⟨task, found, ended, rfl⟩ := reapTask_cases step
    exact .reap found ended (.inl here)
  · rename_i here
    split at step
    · cases step
      exact .quietly (.reaped here)
    · cases step
  · rename_i here
    split at step
    · rename_i full
      cases step
      have moved : EngineMoved cfg s _ := .pass true false (.full (.inr here) full)
        (.inr ⟨rfl, .inr full⟩)
      rw [saveCheckpoint_false] at moved
      exact moved
    · cases step
      exact .quietly (.notFull here)
  · rename_i here
    cases step
    exact .drain here
  · rename_i saved here
    split at step
    · cases step
      exact .quietly (.saved here)
    · cases step
      exact .pass s.cancelled saved (.saved here) (.inl rfl)
  · rename_i limit here
    split at step
    · rename_i room
      cases step
      by_cases fewer : s.tasks.length < limit
      · exact .spawn here room fewer
      · unfold spawnNext
        rw [if_neg fewer]
        exact .quietly (.atLimit here)
    · cases step
  · exact wait_moved ‹_› all
  · rename_i i here
    obtain ⟨task, found, ended, rfl⟩ := reapTask_cases step
    exact .reap found ended (.inr (.inl here))
  · rename_i here
    cases step
    exact .quietly (.timeout here)
  · rename_i i here
    obtain ⟨task, found, ended, rfl⟩ := reapTask_cases step
    exact .reap found ended (.inr (.inr here))
  · rename_i here
    split at step
    · rename_i none
      cases step
      exact .quietly (.drained (.inl here) (List.isEmpty_iff.mp none))
    · cases step
  · rename_i here
    split at step
    · rename_i none
      cases step
      exact .quietly (.drained (.inr here) (List.isEmpty_iff.mp none))
    · cases step
  · rename_i saved here
    split at step
    · rename_i complete
      simp only [Bool.and_eq_true, Bool.not_eq_true'] at complete
      cases step
      exact .delete here complete.1.1 (hasPendingWork_eq_false.mp complete.1.2) complete.2
    · cases step
      exact .pass s.cancelled saved (.incomplete here) (.inl rfl)
  · cases step

variable (cfg) in
/-- One turn of the spawn loop below the limit: the pending buffer runs out of unvisited URLs,
or its first one is dispatched. -/
theorem spawnNext_cases {s : CrawlState υ κ η} {limit : Nat} (fewer : s.tasks.length < limit) :
    (s.spawnNext cfg limit =
        { s with scheduler := { s.scheduler with pending := [] }, phase := .wait } ∧
      ∀ d ∈ s.scheduler.pending, cfg.canonical d.url ∈ s.scheduler.visited) ∨
    ∃ skipped d rest,
      s.spawnNext cfg limit =
        { s with
          scheduler := { s.scheduler with
            visited := cfg.canonical d.url :: s.scheduler.visited
            visitedUrls := s.scheduler.visitedUrls ++ [d.url]
            pending := rest }
          tasks := s.tasks ++ [⟨d, .rateLimit⟩]
          trace := { s.trace with
            started := s.trace.started ++ [d]
            log := { s.trace.log with dispatched := s.trace.log.dispatched ++ [d.url] } } } ∧
      s.scheduler.pending = skipped ++ d :: rest ∧
      cfg.canonical d.url ∉ s.scheduler.visited ∧
      ∀ d' ∈ skipped, cfg.canonical d'.url ∈ s.scheduler.visited := by
  unfold spawnNext
  rw [if_pos fewer]
  rcases s.scheduler.nextUrl_cases cfg.canonical with
    ⟨none, all⟩ | ⟨skipped, d, rest, next, split, fresh, all⟩
  · rw [none]
    exact .inl ⟨rfl, all⟩
  · rw [next]
    exact .inr ⟨skipped, d, rest, rfl, split, fresh, all⟩

/-! ## A new process -/

/-- The checkpoint a process starts from. -/
def loaded (disk : Option (CrawlCheckpoint υ η × CrawlLog υ)) : CrawlCheckpoint υ η :=
  (disk.map (·.1)).getD ⟨[], [], 0, []⟩

variable (cfg) in
/-- The scheduler of a new process. -/
theorem startProcess_scheduler (disk : Option (CrawlCheckpoint υ η × CrawlLog υ))
    (everBanned : List η) :
    (startProcess cfg disk everBanned).scheduler.pending =
        (loaded disk).queued.map (fun url => ⟨url, 0, url⟩) ++ [⟨cfg.seedUrl, 0, cfg.seedUrl⟩] ∧
      (startProcess cfg disk everBanned).scheduler.queue =
        ⟨[.fromSource ⟨cfg.seedUrl, 0, cfg.seedUrl⟩ .seed], [cfg.canonical cfg.seedUrl]⟩ ∧
      (startProcess cfg disk everBanned).scheduler.Mirrored cfg.canonical ∧
      (∀ key, key ∈ (startProcess cfg disk everBanned).scheduler.visited ↔
        ∃ url ∈ (loaded disk).visited, cfg.canonical url = key) ∧
      ∀ url ∈ (startProcess cfg disk everBanned).scheduler.visitedUrls,
        url ∈ (loaded disk).visited := by
  obtain ⟨pending, queue, mirrored, visited, mirror⟩ :=
    (CrawlScheduler.new (υ := υ) (κ := κ)).restoreVisited_spec cfg.canonical
      (loaded disk).visited
  have empty : (CrawlScheduler.new (υ := υ) (κ := κ)).Mirrored cfg.canonical := by
    intro key
    simp [CrawlScheduler.new]
  refine ⟨?_, ?_, mirrored empty, fun key => (visited key).trans ?_, fun url member => ?_⟩
  · change (CrawlScheduler.new.restoreVisited cfg.canonical (loaded disk).visited).pending ++ _ ++ _
      = _
    rw [pending]
    rfl
  · change ((CrawlScheduler.new.restoreVisited cfg.canonical (loaded disk).visited).queue
      |>.pushPrioritized cfg.canonical _ .seed).2 = _
    rw [queue]
    rfl
  · simp [CrawlScheduler.new]
  · rcases mirror url member with old | here
    · cases old
    · exact here

end CrawlState

/-- A step is a task's move, a move of the engine, or one of three outside events. -/
theorem crawlStep_cases {s t : CrawlState υ κ η} {a : CrawlAction υ}
    (step : crawlStep cfg s a = some t) :
    (∃ i move, a = .task i move ∧ s.taskStep cfg i move = some t) ∨
      (∃ move, a = .engine move ∧ CrawlState.EngineMoved cfg s t) ∨
      (a = .signal ∧ t = { s with shutdown := true }) ∨
      (a = .cancel ∧ t = { s with cancelled := true }) ∨
      (a = .restart ∧
        t = CrawlState.startProcess cfg s.disk s.trace.everBanned) := by
  cases a with
  | task i move => exact .inl ⟨i, move, rfl, step⟩
  | engine move => exact .inr (.inl ⟨move, rfl, CrawlState.engineStep_moved step⟩)
  | signal => exact .inr (.inr (.inl ⟨rfl, (Option.some.inj step).symm⟩))
  | cancel => exact .inr (.inr (.inr (.inl ⟨rfl, (Option.some.inj step).symm⟩)))
  | restart => exact .inr (.inr (.inr (.inr ⟨rfl, (Option.some.inj step).symm⟩)))

end Steps

end Webfang
