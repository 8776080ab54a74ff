import Webfang.Crawler.Interruption

/-!
# The depth limit

A link is as deep as the page it is found on and one more, and the seed has depth zero; but a
URL that `restore_pending` takes from a checkpoint has depth zero as well, wherever it was
found.  What the limit is about is the distance from the seed along the discoveries, which are
recorded in the order they are made, over all the processes of a crawl.
-/

set_option linter.unusedSectionVars false

namespace Webfang

open StepSystem

section DepthLimit

variable {υ κ η : Type} [LinearOrder υ] [DecidableEq κ] [DecidableEq η] {cfg : CrawlConfig υ κ η}

/-- How many links a URL lies from the seed, along the chain of pages by which it was first
discovered.  The discoveries come latest first. -/
def linkDistance : List (Option υ × υ) → υ → Option Nat
  | [], _ => none
  | (parent, found) :: earlier, url =>
      (linkDistance earlier url).or
        (if found = url then
          parent.elim (some 0) fun page => (linkDistance earlier page).map (· + 1)
        else none)

/-- A later discovery changes no distance. -/
theorem linkDistance_cons {earlier : List (Option υ × υ)} {url : υ} {n : Nat}
    (found : linkDistance earlier url = some n) (discovery : Option υ × υ) :
    linkDistance (discovery :: earlier) url = some n := by
  rw [linkDistance, found]
  rfl

/-- The discovery of a link on a page gives it a distance, at most one more than the page's. -/
theorem linkDistance_link {earlier : List (Option υ × υ)} {page : υ} {n : Nat}
    (found : linkDistance earlier page = some n) (link : υ) :
    ∃ m, linkDistance ((some page, link) :: earlier) link = some m ∧
      (linkDistance earlier link = some m ∨ m = n + 1) := by
  rw [linkDistance, if_pos rfl]
  cases before : linkDistance earlier link with
  | some m => exact ⟨m, rfl, .inl rfl⟩
  | none => exact ⟨n + 1, by rw [Option.elim_some, found]; rfl, .inr rfl⟩

theorem linkDistance_seed (earlier : List (Option υ × υ)) (seed : υ) :
    ∃ m, linkDistance ((none, seed) :: earlier) seed = some m ∧
      (linkDistance earlier seed = some m ∨ m = 0) := by
  rw [linkDistance, if_pos rfl]
  cases before : linkDistance earlier seed with
  | some m => exact ⟨m, rfl, .inl rfl⟩
  | none => exact ⟨0, rfl, .inr rfl⟩

theorem linkDistance_of_ne {earlier : List (Option υ × υ)} {parent : Option υ} {found url : υ}
    (different : found ≠ url) : linkDistance ((parent, found) :: earlier) url =
      linkDistance earlier url := by
  rw [linkDistance, if_neg different, Option.or_none]

/-- The URL has been discovered. -/
def Found (discoveries : List (Option υ × υ)) (url : υ) : Prop :=
  ∃ n, linkDistance discoveries url = some n

/-- Every URL that was discovered is within the limit. -/
def WithinLimit (maxDepth : Nat) (discoveries : List (Option υ × υ)) : Prop :=
  ∀ url n, linkDistance discoveries url = some n → n ≤ maxDepth

theorem Found.cons {discoveries : List (Option υ × υ)} {url : υ} (found : Found discoveries url)
    (discovery : Option υ × υ) : Found (discovery :: discoveries) url := by
  obtain ⟨n, there⟩ := found
  exact ⟨n, linkDistance_cons there discovery⟩

theorem WithinLimit.link {maxDepth n : Nat} {discoveries : List (Option υ × υ)}
    (within : WithinLimit maxDepth discoveries) {page : υ}
    (found : linkDistance discoveries page = some n) (room : n < maxDepth) (link : υ) :
    WithinLimit maxDepth ((some page, link) :: discoveries) := by
  intro url m there
  rcases eq_or_ne link url with rfl | different
  · obtain ⟨k, here, before | rfl⟩ := linkDistance_link found link
    · rw [here] at there
      cases there
      exact within _ _ before
    · rw [here] at there
      cases there
      exact room
  · rw [linkDistance_of_ne different] at there
    exact within _ _ there

theorem WithinLimit.seed {maxDepth : Nat} {discoveries : List (Option υ × υ)}
    (within : WithinLimit maxDepth discoveries) (seed : υ) :
    WithinLimit maxDepth ((none, seed) :: discoveries) := by
  intro url m there
  rcases eq_or_ne seed url with rfl | different
  · obtain ⟨k, here, before | rfl⟩ := linkDistance_seed discoveries seed
    · rw [here] at there
      cases there
      exact within _ _ before
    · rw [here] at there
      cases there
      exact Nat.zero_le _
  · rw [linkDistance_of_ne different] at there
    exact within _ _ there

/-! ## The crawl -/

/-- A task that takes up a link, behind the depth check of `extract_and_queue_links`, has a page
that lies fewer links from the seed than the limit. -/
def DepthCheckHolds (cfg : CrawlConfig υ κ η) (s : CrawlState υ κ η) : CrawlAction υ → Prop
  | .task i (.link _) => ∀ task ∈ s.tasks[i]?, ∃ n, n < cfg.maxDepth ∧
      linkDistance s.trace.log.discoveries task.discovered.url = some n
  | _ => True

instance (s : CrawlState υ κ η) (a : CrawlAction υ) : Decidable (DepthCheckHolds cfg s a) :=
  match a with
  | .task i (.link _) => inferInstanceAs (Decidable (∀ task ∈ s.tasks[i]?, _))
  | .task _ .ready | .task _ .cancelWait | .task _ (.acquire _) | .task _ (.fetch _)
    | .task _ (.pipeline _) | .task _ .count | .task _ .send | .task _ .push | .task _ .finish
    | .task _ .panic | .task _ .abort | .engine _ | .signal | .cancel | .restart =>
      .isTrue True.intro

/-- The task is about to push a link. -/
def TaskPc.pushes : TaskPc υ → Bool
  | .pushing .. => true
  | _ => false

namespace CrawlState

/-- A task of a discovered page, within the limit where it is about to push a link. -/
def TaskWithin (cfg : CrawlConfig υ κ η) (discoveries : List (Option υ × υ))
    (task : CrawlTask υ) : Prop :=
  Found discoveries task.discovered.url ∧ (task.pc.pushes = true →
    ∃ n, n < cfg.maxDepth ∧ linkDistance discoveries task.discovered.url = some n)

structure DepthLimited (cfg : CrawlConfig υ κ η) (s : CrawlState υ κ η) : Prop where
  within : WithinLimit cfg.maxDepth s.trace.log.discoveries
  waiting : ∀ url, s.Waits url → Found s.trace.log.discoveries url
  tasks : ∀ task ∈ s.tasks, TaskWithin cfg s.trace.log.discoveries task
  dispatched : ∀ url ∈ s.trace.log.dispatched, Found s.trace.log.discoveries url
  saved : ∀ file ∈ s.disk, WithinLimit cfg.maxDepth file.2.discoveries ∧
    (∀ url ∈ file.1.queued, Found file.2.discoveries url) ∧
    ∀ url ∈ file.2.dispatched, Found file.2.discoveries url

theorem TaskWithin.cons {discoveries : List (Option υ × υ)} {task : CrawlTask υ}
    (within : TaskWithin cfg discoveries task) (discovery : Option υ × υ) :
    TaskWithin cfg (discovery :: discoveries) task := by
  refine ⟨within.1.cons discovery, fun pushes => ?_⟩
  obtain ⟨n, room, there⟩ := within.2 pushes
  exact ⟨n, room, linkDistance_cons there discovery⟩

/-! ## Tasks -/

variable (cfg) in
/-- What an effect adds to the discoveries and to the frontier. -/
theorem effect_discoveries (s : CrawlState υ κ η) (d : DiscoveredUrl υ) (e : TaskEffect υ) :
    ((s.effect cfg d e).trace.log.discoveries = s.trace.log.discoveries ∧
      ∀ url, (s.effect cfg d e).Waits url → s.Waits url) ∨
    ∃ link, e = .pushed link ∧
      (s.effect cfg d e).trace.log.discoveries =
        (some d.url, link.url) :: s.trace.log.discoveries ∧
      ∀ url, (s.effect cfg d e).Waits url → s.Waits url ∨ url = link.url := by
  cases e with
  | ban =>
      obtain ⟨banned, everBanned, same⟩ := s.effect_ban_eq cfg d
      rw [same]
      exact .inl ⟨rfl, fun url waits => waits⟩
  | pushed link =>
      refine .inr ⟨link, rfl, rfl, fun url waits => ?_⟩
      rcases waits with pending | ⟨p, member, same⟩
      · exact .inl (.inl pending)
      · rcases List.mem_cons.mp member with rfl | old
        · exact .inr same.symm
        · exact .inl (.inr ⟨p, old, same⟩)
  | quiet | fetched | counted | sent | marked => exact .inl ⟨rfl, fun url waits => waits⟩

theorem setPc_discoveries (s : CrawlState υ κ η) (i : Nat) (d : DiscoveredUrl υ)
    (pc : TaskPc υ) : (s.setPc i d pc).trace.log.discoveries = s.trace.log.discoveries := by
  cases pc <;> rfl

/-- A task comes to push a link by taking it up. -/
theorem pushes_of_moved {cancelled aborting : Bool} {seen : List κ} {d : DiscoveredUrl υ}
    {pc next : TaskPc υ} {move : TaskMove υ} {effect : TaskEffect υ}
    (moved : TaskMoved cfg cancelled aborting seen d pc move next effect)
    (pushes : next.pushes = true) : ∃ robots, move = .link robots := by
  cases moved with
  | marked => exact ⟨true, rfl⟩
  | _ => cases pushes

theorem pushes_of_pushed {cancelled aborting : Bool} {seen : List κ} {d link : DiscoveredUrl υ}
    {pc next : TaskPc υ} {move : TaskMove υ}
    (moved : TaskMoved cfg cancelled aborting seen d pc move next (.pushed link)) :
    pc.pushes = true := by
  generalize same : TaskEffect.pushed link = effect at moved
  cases moved with
  | pushed => rfl
  | failed waf => cases waf <;> cases same
  | _ => cases same

theorem DepthLimited.taskStep {s t : CrawlState υ κ η} {i : Nat} {move : TaskMove υ}
    (limited : s.DepthLimited cfg) (check : DepthCheckHolds cfg s (.task i move))
    (step : s.taskStep cfg i move = some t) : t.DepthLimited cfg := by
  have same := taskStep_sameEngine step
  obtain ⟨task, pc, effect, found, moved, rfl⟩ := taskStep_cases step
  have here := limited.tasks task (List.mem_of_getElem? found)
  -- the moved task is within the limit before its effect is counted
  have next : TaskWithin cfg s.trace.log.discoveries ⟨task.discovered, pc⟩ := by
    refine ⟨here.1, fun pushes => ?_⟩
    obtain ⟨robots, rfl⟩ := pushes_of_moved (taskMove_moved moved) pushes
    exact check task found
  have tasks : ∀ other ∈ ((s.effect cfg task.discovered effect).setPc i task.discovered pc).tasks,
      TaskWithin cfg s.trace.log.discoveries other := by
    intro other member
    rcases List.mem_or_eq_of_mem_set member with old | rfl
    · rw [(s.effect_tasks cfg _ _).1] at old
      exact limited.tasks other old
    · exact next
  have waits : ∀ url, ((s.effect cfg task.discovered effect).setPc i task.discovered pc).Waits url →
      (s.effect cfg task.discovered effect).Waits url := by
    intro url waits
    cases pc <;> exact waits
  rcases s.effect_discoveries cfg task.discovered effect with
    ⟨keeps, frontier⟩ | ⟨link, rfl, adds, frontier⟩
  · have discoveries := (setPc_discoveries _ i task.discovered pc).trans keeps
    refine ⟨?_, ?_, ?_, ?_, ?_⟩
    · rw [discoveries]
      exact limited.within
    · rw [discoveries]
      exact fun url there => limited.waiting url (frontier url (waits url there))
    · rw [discoveries]
      exact tasks
    · rw [discoveries, same.dispatched]
      exact limited.dispatched
    · rw [same.disk]
      exact limited.saved
  · have discoveries := (setPc_discoveries _ i task.discovered pc).trans adds
    have pushes := pushes_of_pushed (taskMove_moved moved)
    obtain ⟨n, room, there⟩ := here.2 pushes
    refine ⟨?_, ?_, ?_, ?_, ?_⟩
    · rw [discoveries]
      exact limited.within.link there room link.url
    · rw [discoveries]
      intro url waiting
      rcases frontier url (waits url waiting) with old | rfl
      · exact (limited.waiting url old).cons _
      · obtain ⟨m, new, -⟩ := linkDistance_link there link.url
        exact ⟨m, new⟩
    · rw [discoveries]
      exact fun other member => (tasks other member).cons _
    · rw [discoveries, same.dispatched]
      exact fun url member => (limited.dispatched url member).cons _
    · rw [same.disk]
      exact limited.saved

/-! ## The engine and a new process -/

/-- The saved frontier is taken from the waiting URLs. -/
theorem waits_of_snapshot {s : CrawlState υ κ η} {budget : Nat} {url : υ}
    (member : url ∈ s.scheduler.snapshotPendingBounded budget) : s.Waits url := by
  rcases List.mem_append.mp (List.mem_of_mem_take member) with pending | queue
  · exact .inl (List.mem_map.mp pending)
  · obtain ⟨d, popped, rfl⟩ := List.mem_map.mp (List.mem_of_mem_take queue)
    obtain ⟨p, there, rfl⟩ := List.mem_map.mp (UrlQueue.mem_popOrder.mp popped)
    exact .inr ⟨p, there, rfl⟩

theorem DepthLimited.saveCheckpoint {s : CrawlState υ κ η} (limited : s.DepthLimited cfg)
    (saved : Bool) : (s.saveCheckpoint cfg saved).DepthLimited cfg := by
  unfold CrawlState.saveCheckpoint
  split
  · refine ⟨limited.within, limited.waiting, limited.tasks, limited.dispatched, ?_⟩
    rintro file ⟨⟩
    exact ⟨limited.within, fun url member => limited.waiting url (waits_of_snapshot member),
      limited.dispatched⟩
  · exact limited

/-- Steps that leave the records and the disk alone and add nothing to the frontier. -/
theorem DepthLimited.frame {s t : CrawlState υ κ η} (limited : s.DepthLimited cfg)
    (trace : t.trace = s.trace) (waits : ∀ url, t.Waits url → s.Waits url)
    (tasks : ∀ task ∈ t.tasks, task ∈ s.tasks) (disk : t.disk = s.disk ∨ t.disk = none) :
    t.DepthLimited cfg := by
  refine ⟨?_, ?_, ?_, ?_, fun file held => ?_⟩
  · rw [trace]
    exact limited.within
  · rw [trace]
    exact fun url there => limited.waiting url (waits url there)
  · rw [trace]
    exact fun task member => limited.tasks task (tasks task member)
  · rw [trace]
    exact limited.dispatched
  · rcases disk with same | none
    · exact limited.saved file (same ▸ held)
    · rw [none] at held
      cases held

theorem DepthLimited.spawnNext {s : CrawlState υ κ η} {limit : Nat}
    (limited : s.DepthLimited cfg) (fewer : s.tasks.length < limit) :
    (s.spawnNext cfg limit).DepthLimited cfg := by
  rcases spawnNext_cases cfg fewer with
    ⟨next, -⟩ | ⟨skipped, d, rest, next, split, -⟩
  · rw [next]
    refine limited.frame rfl (fun url waits => ?_) (fun task member => member) (.inl rfl)
    rcases waits with ⟨d, member, -⟩ | heap
    · cases member
    · exact .inr heap
  · rw [next]
    have later : ∀ d' ∈ d :: rest, Found s.trace.log.discoveries d'.url := fun d' member =>
      limited.waiting d'.url (.inl ⟨d', split ▸ List.mem_append_right _ member, rfl⟩)
    refine ⟨limited.within, fun url waits => ?_, fun task member => ?_, fun url member => ?_,
      limited.saved⟩
    · rcases waits with ⟨d', member, rfl⟩ | heap
      · exact later d' (List.mem_cons_of_mem _ member)
      · exact limited.waiting url (.inr heap)
    · rcases List.mem_append.mp member with old | new
      · exact limited.tasks task old
      · rw [List.mem_singleton.mp new]
        exact ⟨later d (List.mem_cons_self ..), fun pushes => nomatch pushes⟩
    · rcases List.mem_append.mp member with old | new
      · exact limited.dispatched url old
      · rw [List.mem_singleton.mp new]
        exact later d (List.mem_cons_self ..)

theorem DepthLimited.engineMoved {s t : CrawlState υ κ η} (limited : s.DepthLimited cfg)
    (moved : EngineMoved cfg s t) : t.DepthLimited cfg := by
  cases moved with
  | pass cancelled saved passes fires =>
      refine DepthLimited.saveCheckpoint ?_ saved
      exact limited.frame rfl (fun url waits => waits) (fun task member => member) (.inl rfl)
  | reap found ended here =>
      exact limited.frame rfl (fun url waits => waits)
        (fun task member => List.mem_of_mem_eraseIdx member) (.inl rfl)
  | joined found ended here pending =>
      exact limited.frame rfl (fun url waits => waits)
        (fun task member => List.mem_of_mem_eraseIdx member) (.inl rfl)
  | drain here =>
      refine limited.frame rfl (fun url waits => ?_) (fun task member => member) (.inl rfl)
      rcases waits with ⟨d, member, same⟩ | ⟨p, member, -⟩
      · rcases List.mem_append.mp member with pending | drained
        · exact .inl ⟨d, pending, same⟩
        · obtain ⟨p, there, rfl⟩ := List.mem_map.mp (UrlQueue.mem_popOrder.mp drained)
          exact .inr ⟨p, there, same⟩
      · cases member
  | spawn here room fewer => exact limited.spawnNext fewer
  | delete here running pending notFull =>
      refine limited.frame rfl (fun url waits => waits) (fun task member => member) ?_
      cases cfg.checkpointing with
      | true => exact .inr rfl
      | false => exact .inl rfl

/-- A new process takes the distances of its checkpoint with it, and the seed is at none. -/
theorem depthLimited_startProcess {disk : Option (CrawlCheckpoint υ η × CrawlLog υ)}
    {everBanned : List η}
    (saved : ∀ file ∈ disk, WithinLimit cfg.maxDepth file.2.discoveries ∧
      (∀ url ∈ file.1.queued, Found file.2.discoveries url) ∧
      ∀ url ∈ file.2.dispatched, Found file.2.discoveries url) :
    (startProcess cfg disk everBanned).DepthLimited cfg := by
  obtain ⟨pending, queue, -⟩ := startProcess_scheduler cfg disk everBanned
  obtain ⟨earlier, discoveries, within, queued, dispatched⟩ :
      ∃ earlier, (startProcess cfg disk everBanned).trace.log.discoveries =
          (none, cfg.seedUrl) :: earlier ∧ WithinLimit cfg.maxDepth earlier ∧
        (∀ url ∈ (loaded disk).queued, Found earlier url) ∧
        ∀ url ∈ (startProcess cfg disk everBanned).trace.log.dispatched, Found earlier url := by
    cases disk with
    | none => exact ⟨[], rfl, fun url n there => (nomatch there), fun url member => (nomatch member),
        fun url member => nomatch member⟩
    | some file => exact ⟨file.2.discoveries, rfl, saved file rfl⟩
  have seed : Found ((none, cfg.seedUrl) :: earlier) cfg.seedUrl := by
    obtain ⟨n, there, -⟩ := linkDistance_seed earlier cfg.seedUrl
    exact ⟨n, there⟩
  refine ⟨?_, fun url waits => ?_, fun task member => (nomatch member), fun url member => ?_, saved⟩
  · rw [discoveries]
    exact within.seed cfg.seedUrl
  · rw [discoveries]
    rcases waits with ⟨d, member, rfl⟩ | ⟨p, member, rfl⟩
    · rw [pending] at member
      rcases List.mem_append.mp member with restored | new
      · obtain ⟨url, there, rfl⟩ := List.mem_map.mp restored
        exact (queued url there).cons _
      · rw [List.mem_singleton.mp new]
        exact seed
    · rw [queue] at member
      rw [List.mem_singleton.mp member]
      exact seed
  · rw [discoveries]
    exact (dispatched url member).cons _

end CrawlState

theorem depthLimited_crawlStep {s t : CrawlState υ κ η} {a : CrawlAction υ}
    (limited : s.DepthLimited cfg) (check : DepthCheckHolds cfg s a)
    (step : crawlStep cfg s a = some t) : t.DepthLimited cfg := by
  rcases crawlStep_cases step with ⟨i, move, rfl, moved⟩ | ⟨move, -, moved⟩ | ⟨-, rfl⟩ | ⟨-, rfl⟩ |
    ⟨-, rfl⟩
  · exact limited.taskStep check moved
  · exact limited.engineMoved moved
  · exact limited.frame rfl (fun url waits => waits) (fun task member => member) (.inl rfl)
  · exact limited.frame rfl (fun url waits => waits) (fun task member => member) (.inl rfl)
  · exact CrawlState.depthLimited_startProcess limited.saved

/-- In a history where every task that takes up a link has a page fewer than `maxDepth` links
from the seed, every URL that is dispatched, over all resumed processes, lies at most
`maxDepth` links from the seed along the pages by which it was discovered. -/
theorem depth_limit_over_resumes {as : List (CrawlAction υ)} {t : CrawlState υ κ η}
    (run : execute (crawlStep cfg) (.init cfg) as = some t)
    (check : Along (crawlStep cfg) (DepthCheckHolds cfg) (.init cfg) as) :
    ∀ url ∈ t.trace.log.dispatched,
      ∃ n, n ≤ cfg.maxDepth ∧ linkDistance t.trace.log.discoveries url = some n := by
  intro url member
  have limited : t.DepthLimited cfg :=
    execute_invariant_along (fun _ _ _ limited check step => depthLimited_crawlStep limited check step)
      run check (CrawlState.depthLimited_startProcess fun file held => by cases held)
  obtain ⟨n, there⟩ := limited.dispatched url member
  exact ⟨n, limited.within url n there, there⟩

end DepthLimit

theorem depth_limit_over_resumes_of_sample :
    ∃ t, execute (crawlStep (sampleConfig 1)) (.init (sampleConfig 1)) resumedCrawl = some t ∧
      t.trace.log.dispatched = ["https://site.test/", "https://site.test/a"] ∧
      ∀ url ∈ t.trace.log.dispatched,
        ∃ n, n ≤ 1 ∧ linkDistance t.trace.log.discoveries url = some n := by
  have succeeds : (execute (crawlStep (sampleConfig 1)) (.init (sampleConfig 1)) resumedCrawl).any
      (·.trace.log.dispatched == ["https://site.test/", "https://site.test/a"]) = true := by
    decide +kernel
  obtain ⟨t, run, both⟩ := (Option.any_eq_true _ _).mp succeeds
  exact ⟨t, run, beq_iff_eq.mp both, depth_limit_over_resumes run (by decide +kernel)⟩

/-- The resumed crawl goes on: `/a`, one link from the seed, is restored at depth zero, and its
link `/a/b` is dispatched, two links from the seed. -/
theorem restored_page_passes_depth_check :
    ∃ t, execute (crawlStep (sampleConfig 1)) (.init (sampleConfig 1))
        (resumedCrawl ++ fetchPage 0 "https://site.test/a" ["https://site.test/a/b"] ++
          pushLinks 0 1 ++ loopTurn [0] 2) = some t ∧
      "https://site.test/a/b" ∈ t.trace.log.dispatched ∧
      linkDistance t.trace.log.discoveries "https://site.test/a/b" = some 2 := by
  have succeeds : (execute (crawlStep (sampleConfig 1)) (.init (sampleConfig 1))
      (resumedCrawl ++ fetchPage 0 "https://site.test/a" ["https://site.test/a/b"] ++
        pushLinks 0 1 ++ loopTurn [0] 2)).any
      (fun t => decide ("https://site.test/a/b" ∈ t.trace.log.dispatched ∧
        linkDistance t.trace.log.discoveries "https://site.test/a/b" = some 2)) = true := by
    decide +kernel
  obtain ⟨t, run, both⟩ := (Option.any_eq_true _ _).mp succeeds
  exact ⟨t, run, of_decide_eq_true both⟩

end Webfang
