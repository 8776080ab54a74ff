import Webfang.Crawler.Dispatch

/-!
# Where the accepted URLs are

At every moment an accepted URL waits in the pending buffer or on the heap, or its canonical
form is visited; a visited form was restored or dispatched in this process; and a dispatched
URL has a task that runs or has ended.
-/

set_option linter.unusedSectionVars false

namespace Webfang

open StepSystem

section Accounting

variable {υ κ η : Type} [LinearOrder υ] [DecidableEq κ] [DecidableEq η] {cfg : CrawlConfig υ κ η}

namespace CrawlState

/-- The URL waits to be dispatched. -/
def Waits (s : CrawlState υ κ η) (url : υ) : Prop :=
  (∃ d ∈ s.scheduler.pending, d.url = url) ∨ ∃ p ∈ s.scheduler.queue.heap, p.url.url = url

/-- The task of this dispatch has not ended. -/
def Runs (s : CrawlState υ κ η) (d : DiscoveredUrl υ) : Prop :=
  ∃ task ∈ s.tasks, task.discovered = d ∧ task.pc.isEnded = false

structure Accounted (cfg : CrawlConfig υ κ η) (s : CrawlState υ κ η) : Prop where
  accepted : ∀ url ∈ s.trace.accepted, s.Waits url ∨ cfg.canonical url ∈ s.scheduler.visited
  visited : ∀ key ∈ s.scheduler.visited, (∃ url ∈ s.trace.restored, cfg.canonical url = key) ∨
    ∃ d ∈ s.trace.started, cfg.canonical d.url = key
  started : ∀ d ∈ s.trace.started, s.Runs d ∨ ∃ e, (d.url, e) ∈ s.trace.log.ended

/-- Where nothing waits, an accepted URL has been visited. -/
theorem Accounted.visited_of_accepted {s : CrawlState υ κ η} (accounted : s.Accounted cfg)
    (pending : s.scheduler.pending = []) (heap : s.scheduler.queue.heap = []) {url : υ}
    (member : url ∈ s.trace.accepted) : cfg.canonical url ∈ s.scheduler.visited := by
  rcases accounted.accepted url member with (⟨d, here, -⟩ | ⟨p, here, -⟩) | visited
  · rw [pending] at here
    cases here
  · rw [heap] at here
    cases here
  · exact visited

/-! ## Tasks -/

theorem setPc_ended (s : CrawlState υ κ η) (i : Nat) (d : DiscoveredUrl υ) (pc : TaskPc υ)
    {entry : υ × TaskEnd} (member : entry ∈ s.trace.log.ended) :
    entry ∈ (s.setPc i d pc).trace.log.ended := by
  cases pc with
  | ended result => exact List.mem_append_left _ member
  | _ => exact member

/-- A task that moves runs on or is recorded as ended, and the others run on. -/
theorem runs_setPc {s : CrawlState υ κ η} {i : Nat} {task : CrawlTask υ} {pc : TaskPc υ}
    (found : s.tasks[i]? = some task) {d : DiscoveredUrl υ} (runs : s.Runs d) :
    (s.setPc i task.discovered pc).Runs d ∨
      ∃ e, pc = .ended e ∧ (d.url, e) ∈ (s.setPc i task.discovered pc).trace.log.ended := by
  obtain ⟨other, member, rfl, running⟩ := runs
  obtain ⟨j, there⟩ := List.mem_iff_getElem?.mp member
  rcases eq_or_ne i j with rfl | different
  · rw [found] at there
    cases there
    have inside : i < s.tasks.length := (List.getElem?_eq_some_iff.mp found).1
    cases ended : pc.isEnded with
    | false => exact .inl ⟨⟨task.discovered, pc⟩, List.mem_set inside _, rfl, ended⟩
    | true =>
        cases pc with
        | ended result =>
            exact .inr ⟨result, rfl, List.mem_append_right _ (List.mem_singleton.mpr rfl)⟩
        | _ => cases ended
  · refine .inl ⟨other, List.mem_iff_getElem?.mpr ⟨j, ?_⟩, rfl, running⟩
    change (s.tasks.set i _)[j]? = some other
    rw [List.getElem?_set_ne different]
    exact there

/-- A dispatch whose task ran before a step runs after it, or the step ended it. -/
theorem runs_taskStep {s : CrawlState υ κ η} {i : Nat} {task : CrawlTask υ} {pc : TaskPc υ}
    {effect : TaskEffect υ} (found : s.tasks[i]? = some task) {d : DiscoveredUrl υ}
    (runs : s.Runs d) :
    ((s.effect cfg task.discovered effect).setPc i task.discovered pc).Runs d ∨
      ∃ e, pc = .ended e ∧ (d.url, e) ∈
        ((s.effect cfg task.discovered effect).setPc i task.discovered pc).trace.log.ended := by
  obtain ⟨tasks, -⟩ := s.effect_tasks cfg task.discovered effect
  refine runs_setPc (s := s.effect cfg task.discovered effect) (by rw [tasks]; exact found) ?_
  unfold Runs at runs ⊢
  rw [tasks]
  exact runs

/-- What is recorded as ended stays recorded. -/
theorem ended_taskStep {s : CrawlState υ κ η} (i : Nat) (d : DiscoveredUrl υ) (pc : TaskPc υ)
    (effect : TaskEffect υ) {entry : υ × TaskEnd} (member : entry ∈ s.trace.log.ended) :
    entry ∈ ((s.effect cfg d effect).setPc i d pc).trace.log.ended := by
  refine setPc_ended _ i d pc ?_
  rw [(s.effect_tasks cfg d effect).2]
  exact member

/-- An effect moves no URL out of the frontier; a pushed link is put on the heap. -/
theorem waits_effect {s : CrawlState υ κ η} (d : DiscoveredUrl υ) (e : TaskEffect υ) {url : υ}
    (waits : s.Waits url) : (s.effect cfg d e).Waits url := by
  cases e with
  | ban =>
      obtain ⟨banned, everBanned, same⟩ := s.effect_ban_eq cfg d
      rw [same]
      exact waits
  | pushed link =>
      rcases waits with pending | ⟨p, member, same⟩
      · exact .inl pending
      · exact .inr ⟨p, List.mem_cons_of_mem _ member, same⟩
  | quiet | fetched | counted | sent | marked => exact waits

theorem accepted_effect {s : CrawlState υ κ η} (d : DiscoveredUrl υ) (e : TaskEffect υ) {url : υ}
    (member : url ∈ (s.effect cfg d e).trace.accepted) :
    url ∈ s.trace.accepted ∨ (s.effect cfg d e).Waits url := by
  cases e with
  | ban =>
      obtain ⟨banned, everBanned, same⟩ := s.effect_ban_eq cfg d
      rw [same] at member
      exact .inl member
  | pushed link =>
      rcases List.mem_append.mp member with old | new
      · exact .inl old
      · rw [List.mem_singleton.mp new]
        exact .inr (.inr ⟨.fromSource link .link, List.mem_cons_self .., rfl⟩)
  | quiet | fetched | counted | sent | marked => exact .inl member

theorem Accounted.taskStep {s t : CrawlState υ κ η} {i : Nat} {move : TaskMove υ}
    (accounted : s.Accounted cfg) (step : s.taskStep cfg i move = some t) : t.Accounted cfg := by
  have same := taskStep_sameEngine step
  obtain ⟨task, pc, effect, found, -, rfl⟩ := taskStep_cases step
  have waits {url : υ} (waits : (s.effect cfg task.discovered effect).Waits url) :
      ((s.effect cfg task.discovered effect).setPc i task.discovered pc).Waits url := by
    cases pc <;> exact waits
  have accepted : ((s.effect cfg task.discovered effect).setPc i task.discovered pc).trace.accepted
      = (s.effect cfg task.discovered effect).trace.accepted := by
    cases pc <;> rfl
  refine ⟨fun url member => ?_, fun key member => ?_, fun d member => ?_⟩
  · rw [accepted] at member
    rw [same.visited]
    rcases accepted_effect _ _ member with old | new
    · exact (accounted.accepted url old).imp_left fun there => waits (waits_effect _ _ there)
    · exact .inl (waits new)
  · rw [same.visited] at member
    rw [same.restored, same.started]
    exact accounted.visited key member
  · rw [same.started] at member
    rcases accounted.started d member with running | ⟨e, ended⟩
    · exact (runs_taskStep found running).imp_right fun ⟨e, _, ended⟩ => ⟨e, ended⟩
    · exact .inr ⟨e, ended_taskStep _ _ _ _ ended⟩

/-! ## The engine -/

theorem runs_eraseIdx {tasks : List (CrawlTask υ)} {i : Nat} {gone task : CrawlTask υ}
    (found : tasks[i]? = some gone) (ended : gone.pc.isEnded = true) (member : task ∈ tasks)
    (running : task.pc.isEnded = false) : task ∈ tasks.eraseIdx i := by
  obtain ⟨j, there⟩ := List.mem_iff_getElem?.mp member
  refine List.mem_eraseIdx_iff_getElem?.mpr ⟨j, ?_, there⟩
  rintro rfl
  rw [found] at there
  cases there
  rw [ended] at running
  cases running

/-- Steps that leave the frontier and the records alone, and keep the running tasks. -/
theorem Accounted.frame {s t : CrawlState υ κ η} (accounted : s.Accounted cfg)
    (scheduler : t.scheduler = s.scheduler) (trace : t.trace = s.trace)
    (tasks : ∀ task ∈ s.tasks, task.pc.isEnded = false → task ∈ t.tasks) : t.Accounted cfg := by
  refine ⟨fun url member => ?_, fun key member => ?_, fun d member => ?_⟩
  · unfold Waits
    rw [scheduler]
    rw [trace] at member
    exact accounted.accepted url member
  · rw [scheduler] at member
    rw [trace]
    exact accounted.visited key member
  · rw [trace] at member ⊢
    refine (accounted.started d member).imp_left ?_
    rintro ⟨task, here, same, running⟩
    exact ⟨task, tasks task here running, same, running⟩

theorem Accounted.spawnNext {s : CrawlState υ κ η} {limit : Nat} (accounted : s.Accounted cfg)
    (fewer : s.tasks.length < limit) : (s.spawnNext cfg limit).Accounted cfg := by
  rcases spawnNext_cases cfg fewer with
    ⟨next, all⟩ | ⟨skipped, d, rest, next, split, fresh, all⟩
  · rw [next]
    refine ⟨fun url member => ?_, accounted.visited, accounted.started⟩
    rcases accounted.accepted url member with (⟨d, here, rfl⟩ | heap) | visited
    · exact .inr (all d here)
    · exact .inl (.inr heap)
    · exact .inr visited
  · rw [next]
    refine ⟨fun url member => ?_, fun key member => ?_, fun d' member => ?_⟩
    · rcases accounted.accepted url member with (⟨d', here, rfl⟩ | heap) | visited
      · rw [split, List.mem_append, List.mem_cons] at here
        rcases here with skip | rfl | later
        · exact .inr (List.mem_cons_of_mem _ (all d' skip))
        · exact .inr (List.mem_cons_self ..)
        · exact .inl (.inl ⟨d', later, rfl⟩)
      · exact .inl (.inr heap)
      · exact .inr (List.mem_cons_of_mem _ visited)
    · rcases List.mem_cons.mp member with rfl | old
      · exact .inr ⟨d, List.mem_append_right _ (List.mem_singleton.mpr rfl), rfl⟩
      · refine (accounted.visited key old).imp_right ?_
        rintro ⟨d', here, same⟩
        exact ⟨d', List.mem_append_left _ here, same⟩
    · rcases List.mem_append.mp member with old | new
      · refine (accounted.started d' old).imp_left ?_
        rintro ⟨task, here, same, running⟩
        exact ⟨task, List.mem_append_left _ here, same, running⟩
      · rw [List.mem_singleton.mp new]
        exact .inl ⟨⟨d, .rateLimit⟩, List.mem_append_right _ (List.mem_singleton.mpr rfl), rfl, rfl⟩

variable (cfg) in
theorem saveCheckpoint_frame (s : CrawlState υ κ η) (saved : Bool) :
    (s.saveCheckpoint cfg saved).scheduler = s.scheduler ∧
      (s.saveCheckpoint cfg saved).trace = s.trace ∧
      (s.saveCheckpoint cfg saved).tasks = s.tasks ∧
      (s.saveCheckpoint cfg saved).phase = s.phase ∧
      (s.saveCheckpoint cfg saved).shutdown = s.shutdown ∧
      (s.saveCheckpoint cfg saved).cancelled = s.cancelled ∧
      (s.saveCheckpoint cfg saved).collected = s.collected ∧
      (s.saveCheckpoint cfg saved).deleted = s.deleted ∧
      (s.saveCheckpoint cfg saved).results = s.results ∧
      (s.saveCheckpoint cfg saved).banned = s.banned := by
  unfold CrawlState.saveCheckpoint
  split <;> exact ⟨rfl, rfl, rfl, rfl, rfl, rfl, rfl, rfl, rfl, rfl⟩

theorem Accounted.engineMoved {s t : CrawlState υ κ η} (accounted : s.Accounted cfg)
    (moved : EngineMoved cfg s t) : t.Accounted cfg := by
  cases moved with
  | @pass phase cancelled saved passes fires =>
      obtain ⟨scheduler, trace, tasks, -⟩ := saveCheckpoint_frame cfg
        { s with phase := phase, cancelled := cancelled } saved
      refine accounted.frame scheduler trace fun task member _ => ?_
      rw [tasks]
      exact member
  | reap found ended here =>
      exact accounted.frame rfl rfl fun task member running =>
        runs_eraseIdx found ended member running
  | joined found ended here pending =>
      exact accounted.frame rfl rfl fun task member running =>
        runs_eraseIdx found ended member running
  | drain here =>
      refine ⟨fun url member => (accounted.accepted url member).imp_left ?_, accounted.visited,
        accounted.started⟩
      rintro (⟨d, member, same⟩ | ⟨p, member, same⟩)
      · exact .inl ⟨d, List.mem_append_left _ member, same⟩
      · refine .inl ⟨p.url, List.mem_append_right _ ?_, same⟩
        exact UrlQueue.mem_popOrder.mpr (List.mem_map_of_mem member)
  | spawn here room fewer => exact accounted.spawnNext fewer
  | delete here running pending notFull =>
      exact accounted.frame rfl rfl fun task member _ => member

/-! ## A new process -/

theorem accounted_startProcess (disk : Option (CrawlCheckpoint υ η × CrawlLog υ))
    (everBanned : List η) :
    (startProcess cfg disk everBanned).Accounted cfg := by
  obtain ⟨pending, -, -, visited, -⟩ :=
    startProcess_scheduler cfg disk everBanned
  refine ⟨fun url member => .inl (.inl ?_), fun key member => .inl ((visited key).mp member),
    fun d member => nomatch member⟩
  rw [pending]
  rcases List.mem_append.mp member with queued | seed
  · exact ⟨⟨url, 0, url⟩, List.mem_append_left _ (List.mem_map_of_mem queued), rfl⟩
  · rw [List.mem_singleton.mp seed]
    exact ⟨_, List.mem_append_right _ (List.mem_singleton.mpr rfl), rfl⟩

end CrawlState

theorem accounted_crawlStep {s t : CrawlState υ κ η} {a : CrawlAction υ}
    (accounted : s.Accounted cfg) (step : crawlStep cfg s a = some t) : t.Accounted cfg := by
  rcases crawlStep_cases step with ⟨i, move, -, moved⟩ | ⟨move, -, moved⟩ | ⟨-, rfl⟩ | ⟨-, rfl⟩ |
    ⟨-, rfl⟩
  · exact accounted.taskStep moved
  · exact accounted.engineMoved moved
  · exact accounted.frame rfl rfl fun task member _ => member
  · exact accounted.frame rfl rfl fun task member _ => member
  · exact CrawlState.accounted_startProcess ..

theorem accounted_of_run {as : List (CrawlAction υ)} {t : CrawlState υ κ η}
    (run : execute (crawlStep cfg) (.init cfg) as = some t) : t.Accounted cfg :=
  execute_invariant (fun _ _ _ accounted step => accounted_crawlStep accounted step) run
    (CrawlState.accounted_startProcess ..)

end Accounting

end Webfang
