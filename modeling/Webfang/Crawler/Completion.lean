import Webfang.Crawler.Accounting

/-!
# When a crawl is over

The loop leaves through its condition only when the frontier is empty: what a task pushed
behind the last drain keeps the task in the join set, or a URL in the pending buffer, until
the next one.  From there on nothing changes but for a shutdown or a full collector.
-/

set_option linter.unusedSectionVars false

namespace Webfang

open StepSystem

section Completion

variable {υ κ η : Type} [LinearOrder υ] [DecidableEq κ] [DecidableEq η] {cfg : CrawlConfig υ κ η}

namespace CrawlState

/-- No work is left anywhere. -/
def Quiescent (s : CrawlState υ κ η) : Prop :=
  s.scheduler.pending = [] ∧ s.scheduler.queue.heap = [] ∧ s.tasks = []

/-- What each phase knows of the work that is left. -/
structure Phased (cfg : CrawlConfig υ κ η) (s : CrawlState υ κ η) : Prop where
  between : s.phase = .periodic ∨ s.phase = .spawn ∨ s.phase = .wait →
    s.scheduler.queue.heap ≠ [] → s.tasks ≠ []
  atHead : s.phase = .head → s.scheduler.queue.heap ≠ [] →
    s.scheduler.pending ≠ [] ∨ s.tasks ≠ []
  leaving : s.phase = .drainTasks ∨ s.phase = .aborting ∨ s.phase = .final ∨
    (s.phase = .finished ∧ cfg.seedAllowed = true) →
    s.shutdown = true ∨ s.isFull cfg = true ∨ s.Quiescent
  joined : s.phase = .final → s.tasks = []
  deleted : s.deleted = true → s.phase = .finished ∧ s.Quiescent

/-! ## Tasks -/

theorem effect_isFull {s : CrawlState υ κ η} (d : DiscoveredUrl υ) (e : TaskEffect υ)
    (full : s.isFull cfg = true) : (s.effect cfg d e).isFull cfg = true := by
  cases e with
  | ban =>
      obtain ⟨banned, everBanned, same⟩ := s.effect_ban_eq cfg d
      rw [same]
      exact full
  | counted =>
      have enough := of_decide_eq_true full
      exact decide_eq_true (Nat.le_succ_of_le enough)
  | quiet | fetched | sent | marked | pushed => exact full

theorem taskStep_isFull {s t : CrawlState υ κ η} {i : Nat} {move : TaskMove υ}
    (step : s.taskStep cfg i move = some t) (full : s.isFull cfg = true) :
    t.isFull cfg = true := by
  obtain ⟨task, pc, effect, -, -, rfl⟩ := taskStep_cases step
  exact effect_isFull task.discovered effect full

/-- A task that moves is in the join set, before and after. -/
theorem taskStep_tasks {s t : CrawlState υ κ η} {i : Nat} {move : TaskMove υ}
    (step : s.taskStep cfg i move = some t) : s.tasks ≠ [] ∧ t.tasks ≠ [] := by
  obtain ⟨task, pc, effect, found, -, rfl⟩ := taskStep_cases step
  have inside : s.tasks ≠ [] := List.ne_nil_of_mem (List.mem_of_getElem? found)
  refine ⟨inside, fun empty => inside ?_⟩
  have gone : (s.effect cfg task.discovered effect).tasks.set i ⟨task.discovered, pc⟩ = [] := empty
  rw [List.set_eq_nil_iff, (s.effect_tasks cfg _ _).1] at gone
  exact gone

theorem Phased.taskStep {s t : CrawlState υ κ η} {i : Nat} {move : TaskMove υ}
    (phased : s.Phased cfg) (step : s.taskStep cfg i move = some t) : t.Phased cfg := by
  have same := taskStep_sameEngine step
  obtain ⟨before, after⟩ := taskStep_tasks step
  refine ⟨fun _ _ => after, fun _ _ => .inr after, fun here => ?_, fun here => ?_, fun gone => ?_⟩
  · rw [same.phase] at here
    rcases phased.leaving here with shutdown | full | quiescent
    · exact .inl (same.shutdown.trans shutdown)
    · exact .inr (.inl (taskStep_isFull step full))
    · exact absurd quiescent.2.2 before
  · rw [same.phase] at here
    exact absurd (phased.joined here) before
  · rw [same.deleted] at gone
    exact absurd (phased.deleted gone).2.2.2 before

/-! ## The engine -/

theorem Passes.not_finished {s : CrawlState υ κ η} {phase : EnginePhase}
    (passes : Passes cfg s phase) : s.phase ≠ .finished := by
  intro here
  cases passes <;> simp_all

theorem EngineMoved.not_finished {s t : CrawlState υ κ η} (moved : EngineMoved cfg s t) :
    s.phase ≠ .finished := by
  cases moved with
  | pass cancelled saved passes fires => exact passes.not_finished
  | reap found ended here => rcases here with here | here | here <;> simp [here]
  | joined found ended here pending => simp [here]
  | drain here => simp [here]
  | spawn here room fewer => simp [here]
  | delete here running pending notFull => simp [here]

/-- A phase change keeps what the phases know. -/
theorem Phased.passes {s : CrawlState υ κ η} {phase : EnginePhase} {cancelled : Bool}
    (phased : s.Phased cfg) (passes : Passes cfg s phase) :
    ({ s with phase := phase, cancelled := cancelled } : CrawlState υ κ η).Phased cfg := by
  have stays : s.deleted = false :=
    Bool.eq_false_iff.mpr fun gone => passes.not_finished (phased.deleted gone).1
  cases passes with
  | exit here pending tasks =>
      have heap : s.scheduler.queue.heap = [] := by
        by_contra more
        rcases phased.atHead here more with work | running
        · exact work pending
        · exact running tasks
      exact ⟨by simp, by simp, fun _ => .inr (.inr ⟨pending, heap, tasks⟩), by simp, by simp [stays]⟩
  | interrupt here shutdown =>
      exact ⟨by simp, by simp, fun _ => .inl shutdown, by simp, by simp [stays]⟩
  | full here full =>
      exact ⟨by simp, by simp, fun _ => .inr (.inl full), by simp, by simp [stays]⟩
  | turn | reaped | notFull =>
      exact ⟨by simp, by simp, by simp, by simp, by simp [stays]⟩
  | saved here =>
      exact ⟨fun _ => phased.between (.inl here), by simp, by simp, by simp, by simp [stays]⟩
  | atLimit here =>
      exact ⟨fun _ => phased.between (.inr (.inl here)), by simp, by simp, by simp, by simp [stays]⟩
  | waited here =>
      exact ⟨by simp, fun _ more => .inr (phased.between (.inr (.inr here)) more), by simp, by simp,
        by simp [stays]⟩
  | timeout here =>
      exact ⟨by simp, by simp, fun _ => phased.leaving (.inl here), by simp, by simp [stays]⟩
  | drained here tasks =>
      exact ⟨by simp, by simp, fun _ => phased.leaving (here.imp_right .inl), fun _ => tasks,
        by simp [stays]⟩
  | incomplete here =>
      exact ⟨by simp, by simp, fun _ => phased.leaving (.inr (.inr (.inl here))), by simp,
        by simp [stays]⟩

theorem Phased.saveCheckpoint {s : CrawlState υ κ η} (phased : s.Phased cfg) (saved : Bool) :
    (s.saveCheckpoint cfg saved).Phased cfg := by
  unfold CrawlState.saveCheckpoint
  split
  · exact ⟨phased.between, phased.atHead, phased.leaving, phased.joined, phased.deleted⟩
  · exact phased

theorem Phased.engineMoved {s t : CrawlState υ κ η} (phased : s.Phased cfg)
    (moved : EngineMoved cfg s t) : t.Phased cfg := by
  have stays : s.deleted = false :=
    Bool.eq_false_iff.mpr fun gone => moved.not_finished (phased.deleted gone).1
  cases moved with
  | pass cancelled saved passes fires => exact (phased.passes passes).saveCheckpoint saved
  | reap found ended here =>
      refine ⟨?_, ?_, fun later => ?_, ?_, by simp [stays]⟩
      · rcases here with here | here | here <;> simp [here]
      · rcases here with here | here | here <;> simp [here]
      · refine (phased.leaving later).imp_right (Or.imp_right ?_)
        rintro ⟨pending, heap, tasks⟩
        rw [tasks] at found
        cases found
      · rcases here with here | here | here <;> simp [here]
  | joined found ended here pending =>
      exact ⟨by simp, fun _ _ => .inl pending, by simp, by simp, by simp [stays]⟩
  | drain here =>
      -- the heap has just been emptied
      exact ⟨fun _ more => absurd rfl more, by simp, by simp, by simp, by simp [stays]⟩
  | spawn here room fewer =>
      rcases spawnNext_cases cfg fewer with
        ⟨next, -⟩ | ⟨skipped, d, rest, next, -⟩
      · rw [next]
        exact ⟨fun _ => phased.between (.inr (.inl here)), by simp, by simp, by simp,
          by simp [stays]⟩
      · rw [next]
        exact ⟨fun _ _ => by simp, by simp [here], by simp [here], by simp [here], by simp [stays]⟩
  | delete here running pending notFull =>
      have quiescent : s.Quiescent := by
        rcases phased.leaving (.inr (.inr (.inl here))) with shutdown | full | quiescent
        · rw [running] at shutdown
          cases shutdown
        · rw [notFull] at full
          cases full
        · exact quiescent
      exact ⟨by simp, by simp, fun _ => .inr (.inr quiescent), by simp, fun _ => ⟨rfl, quiescent⟩⟩

theorem phased_startProcess (disk : Option (CrawlCheckpoint υ η × CrawlLog υ))
    (everBanned : List η) :
    (startProcess cfg disk everBanned).Phased cfg := by
  obtain ⟨pending, -⟩ := startProcess_scheduler cfg disk everBanned
  have started : (startProcess cfg disk everBanned).phase = .head ∨
      ((startProcess cfg disk everBanned).phase = .finished ∧ cfg.seedAllowed = false) := by
    cases allowed : cfg.seedAllowed with
    | true => exact .inl (if_pos allowed)
    | false => exact .inr ⟨if_neg (by rw [allowed]; decide), rfl⟩
  refine ⟨?_, fun _ _ => .inl ?_, ?_, fun _ => rfl, fun gone => nomatch gone⟩
  · rcases started with here | ⟨here, -⟩ <;> simp [here]
  · rw [pending]
    simp
  · rcases started with here | ⟨here, refused⟩ <;> simp [*]

end CrawlState

theorem phased_crawlStep {s t : CrawlState υ κ η} {a : CrawlAction υ} (phased : s.Phased cfg)
    (step : crawlStep cfg s a = some t) : t.Phased cfg := by
  rcases crawlStep_cases step with ⟨i, move, -, moved⟩ | ⟨move, -, moved⟩ | ⟨-, rfl⟩ | ⟨-, rfl⟩ |
    ⟨-, rfl⟩
  · exact phased.taskStep moved
  · exact phased.engineMoved moved
  · exact ⟨phased.between, phased.atHead, fun _ => .inl rfl, phased.joined, phased.deleted⟩
  · exact ⟨phased.between, phased.atHead, phased.leaving, phased.joined, phased.deleted⟩
  · exact CrawlState.phased_startProcess ..

theorem phased_of_run {as : List (CrawlAction υ)} {t : CrawlState υ κ η}
    (run : execute (crawlStep cfg) (.init cfg) as = some t) : t.Phased cfg :=
  execute_invariant (fun _ _ _ phased step => phased_crawlStep phased step) run
    (CrawlState.phased_startProcess ..)

/-- When the `while` condition of the loop is false, no task is left, both frontiers are empty,
and whatever was accepted was restored as visited or returned by `next_url`, up to its canonical
form. -/
theorem nothing_stranded_at_exit {as : List (CrawlAction υ)} {t : CrawlState υ κ η}
    (run : execute (crawlStep cfg) (.init cfg) as = some t) (atHead : t.phase = .head)
    (exits : (t.scheduler.hasPendingWork || !t.tasks.isEmpty) = false) :
    t.tasks = [] ∧ t.scheduler.pending = [] ∧ t.scheduler.queue.heap = [] ∧
      ∀ url ∈ t.trace.accepted, (∃ u ∈ t.trace.restored, cfg.canonical u = cfg.canonical url) ∨
        ∃ d ∈ t.trace.started, cfg.canonical d.url = cfg.canonical url := by
  rw [Bool.or_eq_false_iff] at exits
  have pending := CrawlState.hasPendingWork_eq_false.mp exits.1
  have tasks : t.tasks = [] := by simpa using exits.2
  have heap : t.scheduler.queue.heap = [] := by
    by_contra more
    rcases (phased_of_run run).atHead atHead more with work | running
    · exact work pending
    · exact running tasks
  refine ⟨tasks, pending, heap, fun url member => ?_⟩
  have accounted := accounted_of_run run
  exact accounted.visited _ (accounted.visited_of_accepted pending heap member)

end Completion

/-- The seed and its link are fetched, and the loop comes back to its condition. -/
def exhaustedCrawl : List (CrawlAction String) :=
  loopTurn [] 2 ++ fetchPage 0 "https://site.test/" ["https://site.test/a"] ++ pushLinks 0 1 ++
    loopTurn [0] 2 ++ fetchPage 0 "https://site.test/a" [] ++ pushLinks 0 0 ++ loopTurn [0] 1

theorem nothing_stranded_at_exit_of_small_site :
    ∃ t, execute (crawlStep (sampleConfig 1)) (.init (sampleConfig 1)) exhaustedCrawl = some t ∧
      t.trace.accepted = ["https://site.test/", "https://site.test/a"] ∧ t.tasks = [] ∧
      t.scheduler.pending = [] ∧ t.scheduler.queue.heap = [] ∧
      ∀ url ∈ t.trace.accepted, (∃ u ∈ t.trace.restored, u = url) ∨
        ∃ d ∈ t.trace.started, d.url = url := by
  have succeeds : (execute (crawlStep (sampleConfig 1)) (.init (sampleConfig 1)) exhaustedCrawl).any
      (fun t => t.trace.accepted == ["https://site.test/", "https://site.test/a"] &&
        (t.phase == .head && (t.scheduler.hasPendingWork || !t.tasks.isEmpty) == false)) = true := by
    decide +kernel
  obtain ⟨t, run, all⟩ := (Option.any_eq_true _ _).mp succeeds
  simp only [Bool.and_eq_true, beq_iff_eq] at all
  obtain ⟨accepted, atHead, exits⟩ := all
  exact ⟨t, run, accepted, nothing_stranded_at_exit run atHead exits⟩

end Webfang
