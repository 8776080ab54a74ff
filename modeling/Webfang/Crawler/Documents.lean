import Webfang.Crawler.DepthLimit

/-!
# Documents in the crawl result

A URL is dispatched once, but a page is recorded under the URL it was landed on: the results
are distinct as long as no two dispatched URLs land on the same document.
-/

set_option linter.unusedSectionVars false

namespace Webfang

open StepSystem

section Documents

variable {υ κ η : Type} [LinearOrder υ] [DecidableEq κ] [DecidableEq η] {cfg : CrawlConfig υ κ η}

/-- A page that is about to be recorded is landed on by the same URL as every page recorded with
its final URL, up to canonical forms. -/
def LandsAlone (cfg : CrawlConfig υ κ η) (landed : List (υ × υ)) (task : CrawlTask υ) : Prop :=
  match task.pc with
  | .send finalUrl _ => ∀ entry ∈ landed, cfg.canonical entry.2 = cfg.canonical finalUrl →
      cfg.canonical entry.1 = cfg.canonical task.discovered.url
  | _ => True

instance (landed : List (υ × υ)) (task : CrawlTask υ) : Decidable (LandsAlone cfg landed task) :=
  match task with
  | ⟨_, .send _ _⟩ => inferInstanceAs (Decidable (∀ entry ∈ landed, _ → _))
  | ⟨_, .rateLimit⟩ | ⟨_, .session⟩ | ⟨_, .fetch⟩ | ⟨_, .fetched _ _⟩ | ⟨_, .collect _ _⟩
    | ⟨_, .extract _ _⟩ | ⟨_, .pushing _ _ _⟩ | ⟨_, .ended _⟩ => .isTrue True.intro

/-- No two URLs of a process land on one document. -/
def RedirectsApart (cfg : CrawlConfig υ κ η) (s : CrawlState υ κ η) : CrawlAction υ → Prop
  | .task i .send => ∀ task ∈ s.tasks[i]?, LandsAlone cfg s.trace.landed task
  | _ => True

instance (s : CrawlState υ κ η) (a : CrawlAction υ) : Decidable (RedirectsApart cfg s a) :=
  match a with
  | .task i .send => inferInstanceAs (Decidable (∀ task ∈ s.tasks[i]?, _))
  | .task _ .ready | .task _ .cancelWait | .task _ (.acquire _) | .task _ (.fetch _)
    | .task _ (.pipeline _) | .task _ .count | .task _ (.link _) | .task _ .push
    | .task _ .finish | .task _ .panic | .task _ .abort | .engine _ | .signal | .cancel
    | .restart => .isTrue True.intro

/-- The task's page is not recorded yet. -/
def TaskPc.unsent : TaskPc υ → Bool
  | .rateLimit | .session | .fetch | .fetched .. | .collect .. | .send .. => true
  | .extract .. | .pushing .. | .ended _ => false

namespace CrawlState

/-- The canonical form of the URL a task was dispatched for. -/
def taskKey (cfg : CrawlConfig υ κ η) (task : CrawlTask υ) : κ := cfg.canonical task.discovered.url

/-- Every dispatched URL has one task and is recorded once at most, and the results are the
documents landed on. -/
structure Recorded (cfg : CrawlConfig υ κ η) (s : CrawlState υ κ η) : Prop where
  tasks : (s.tasks.map (taskKey cfg)).Nodup
  visited : ∀ task ∈ s.tasks, taskKey cfg task ∈ s.scheduler.visited
  landedVisited : ∀ entry ∈ s.trace.landed, cfg.canonical entry.1 ∈ s.scheduler.visited
  unsent : ∀ task ∈ s.tasks, task.pc.unsent = true →
    ∀ entry ∈ s.trace.landed, cfg.canonical entry.1 ≠ taskKey cfg task
  results : s.results.map (·.url) = s.trace.landed.map (·.2)
  documents : (s.trace.landed.map fun entry => cfg.canonical entry.2).Nodup

/-! ## Tasks -/

/-- Sending records the page; no other move does, and the page of a task that is past it is. -/
theorem sent_of_moved {cancelled aborting : Bool} {seen : List κ} {d : DiscoveredUrl υ}
    {pc next : TaskPc υ} {move : TaskMove υ} {effect : TaskEffect υ}
    (moved : TaskMoved cfg cancelled aborting seen d pc move next effect) :
    (∃ finalUrl links, pc = .send finalUrl links ∧ move = .send ∧ effect = .sent finalUrl ∧
      next.unsent = false) ∨
    ((∀ finalUrl, effect ≠ .sent finalUrl) ∧ (next.unsent = true → pc.unsent = true)) := by
  cases moved with
  | sent finalUrl links => exact .inl ⟨finalUrl, links, rfl, rfl, rfl, rfl⟩
  | failed waf => exact .inr ⟨fun finalUrl => by cases waf <;> simp, fun unsent => nomatch unsent⟩
  | admitted | acquired | fetched | passed | counted =>
      exact .inr ⟨fun finalUrl same => (nomatch same), fun unsent => rfl⟩
  | _ => exact .inr ⟨fun finalUrl same => (nomatch same), fun unsent => nomatch unsent⟩

variable (cfg) in
theorem effect_landed (s : CrawlState υ κ η) (d : DiscoveredUrl υ) {e : TaskEffect υ}
    (other : ∀ finalUrl, e ≠ .sent finalUrl) :
    (s.effect cfg d e).trace.landed = s.trace.landed ∧
      (s.effect cfg d e).results = s.results := by
  cases e with
  | ban =>
      obtain ⟨banned, everBanned, same⟩ := s.effect_ban_eq cfg d
      rw [same]
      exact ⟨rfl, rfl⟩
  | sent finalUrl => exact absurd rfl (other finalUrl)
  | quiet | fetched | counted | marked | pushed => exact ⟨rfl, rfl⟩

theorem setPc_landed (s : CrawlState υ κ η) (i : Nat) (d : DiscoveredUrl υ) (pc : TaskPc υ) :
    (s.setPc i d pc).trace.landed = s.trace.landed ∧ (s.setPc i d pc).results = s.results := by
  cases pc <;> exact ⟨rfl, rfl⟩

/-- A task that moves keeps its URL. -/
theorem map_taskKey_set {tasks : List (CrawlTask υ)} {i : Nat} {task : CrawlTask υ}
    (found : tasks[i]? = some task) (pc : TaskPc υ) :
    (tasks.set i ⟨task.discovered, pc⟩).map (taskKey cfg) = tasks.map (taskKey cfg) := by
  obtain ⟨inside, here⟩ := List.getElem?_eq_some_iff.mp found
  have key : taskKey cfg ⟨task.discovered, pc⟩ = (tasks.map (taskKey cfg)).get ⟨i, by simpa⟩ := by
    rw [List.get_eq_getElem, List.getElem_map, here]
    rfl
  rw [List.map_set, key, List.get_eq_getElem, List.set_getElem_self]

/-- Of two tasks of one URL there is only one. -/
theorem eq_of_taskKey {s : CrawlState υ κ η} (recorded : s.Recorded cfg) {i j : Nat}
    {task other : CrawlTask υ} (found : s.tasks[i]? = some task)
    (there : s.tasks[j]? = some other) (same : taskKey cfg other = taskKey cfg task) : i = j := by
  have inside := (List.getElem?_eq_some_iff.mp found).1
  refine (List.getElem?_inj (by simpa using inside) recorded.tasks).mp ?_
  rw [List.getElem?_map, List.getElem?_map, found, there, Option.map_some, Option.map_some, same]

theorem Recorded.taskStep {s t : CrawlState υ κ η} {i : Nat} {move : TaskMove υ}
    (recorded : s.Recorded cfg) (apart : RedirectsApart cfg s (.task i move))
    (step : s.taskStep cfg i move = some t) : t.Recorded cfg := by
  have same := taskStep_sameEngine step
  obtain ⟨task, pc, effect, found, moved, rfl⟩ := taskStep_cases step
  have here := List.mem_of_getElem? found
  have tasks : ((s.effect cfg task.discovered effect).setPc i task.discovered pc).tasks =
      s.tasks.set i ⟨task.discovered, pc⟩ := by
    rw [← (s.effect_tasks cfg task.discovered effect).1]
    rfl
  have keys : (((s.effect cfg task.discovered effect).setPc i task.discovered pc).tasks.map
      (taskKey cfg)).Nodup := by
    rw [tasks, map_taskKey_set found]
    exact recorded.tasks
  have visited : ∀ other ∈ ((s.effect cfg task.discovered effect).setPc i
      task.discovered pc).tasks, taskKey cfg other ∈
        ((s.effect cfg task.discovered effect).setPc i task.discovered pc).scheduler.visited := by
    intro other member
    rw [same.visited]
    rw [tasks] at member
    rcases List.mem_or_eq_of_mem_set member with old | rfl
    · exact recorded.visited other old
    · exact recorded.visited task here
  obtain ⟨landedNext, resultsNext⟩ :=
    setPc_landed (s.effect cfg task.discovered effect) i task.discovered pc
  rcases sent_of_moved (taskMove_moved moved) with
    ⟨finalUrl, links, atSend, rfl, rfl, past⟩ | ⟨quiet, unsent⟩
  · -- the page is recorded
    have landed : ((s.effect cfg task.discovered (.sent finalUrl)).setPc i task.discovered
        pc).trace.landed = s.trace.landed ++ [(task.discovered.url, finalUrl)] := landedNext
    have notYet := recorded.unsent task here (by rw [atSend]; rfl)
    refine ⟨keys, visited, fun entry member => ?_, fun other member waits entry recordedEntry => ?_,
      ?_, ?_⟩
    · rw [same.visited]
      rw [landed] at member
      rcases List.mem_append.mp member with old | new
      · exact recorded.landedVisited entry old
      · rw [List.mem_singleton.mp new]
        exact recorded.visited task here
    · rw [tasks] at member
      obtain ⟨j, there⟩ := List.mem_iff_getElem?.mp member
      rcases eq_or_ne i j with rfl | different
      · rw [List.getElem?_set_self (List.getElem?_eq_some_iff.mp found).1] at there
        cases there
        rw [past] at waits
        cases waits
      · rw [List.getElem?_set_ne different] at there
        rw [landed] at recordedEntry
        rcases List.mem_append.mp recordedEntry with old | new
        · exact recorded.unsent other (List.mem_of_getElem? there) waits entry old
        · rw [List.mem_singleton.mp new]
          exact fun agree => different (eq_of_taskKey recorded found there agree.symm)
    · rw [resultsNext, landed, List.map_append]
      change (s.results ++ _).map _ = _
      rw [List.map_append, recorded.results]
      rfl
    · rw [landed, List.map_append]
      refine recorded.documents.append (List.nodup_singleton _) ?_
      rw [List.map_singleton, List.disjoint_singleton]
      intro member
      obtain ⟨entry, old, agree⟩ := List.mem_map.mp member
      have alone := apart task found
      unfold LandsAlone at alone
      rw [atSend] at alone
      exact notYet entry old (alone entry old agree)
  · obtain ⟨landedSame, resultsSame⟩ := s.effect_landed cfg task.discovered quiet
    have landed := landedNext.trans landedSame
    refine ⟨keys, visited, ?_, fun other member waits => ?_, ?_, ?_⟩
    · rw [landed, same.visited]
      exact recorded.landedVisited
    · rw [landed]
      rw [tasks] at member
      rcases List.mem_or_eq_of_mem_set member with old | rfl
      · exact recorded.unsent other old waits
      · exact recorded.unsent task here (unsent waits)
    · rw [landed, resultsNext, resultsSame]
      exact recorded.results
    · rw [landed]
      exact recorded.documents

/-! ## The engine -/

/-- Steps that keep the visited set and the records, and part of the tasks. -/
theorem Recorded.frame {s t : CrawlState υ κ η} (recorded : s.Recorded cfg)
    (visited : t.scheduler.visited = s.scheduler.visited)
    (landed : t.trace.landed = s.trace.landed) (results : t.results = s.results)
    (tasks : t.tasks.Sublist s.tasks) : t.Recorded cfg := by
  refine ⟨recorded.tasks.sublist (tasks.map _), fun task member => ?_, ?_, fun task member => ?_,
    ?_, ?_⟩
  · rw [visited]
    exact recorded.visited task (tasks.subset member)
  · rw [visited, landed]
    exact recorded.landedVisited
  · rw [landed]
    exact recorded.unsent task (tasks.subset member)
  · rw [landed, results]
    exact recorded.results
  · rw [landed]
    exact recorded.documents

theorem Recorded.spawnNext {s : CrawlState υ κ η} {limit : Nat} (recorded : s.Recorded cfg)
    (fewer : s.tasks.length < limit) : (s.spawnNext cfg limit).Recorded cfg := by
  rcases spawnNext_cases cfg fewer with
    ⟨next, -⟩ | ⟨skipped, d, rest, next, -, fresh, -⟩
  · rw [next]
    exact recorded.frame rfl rfl rfl (List.Sublist.refl _)
  · rw [next]
    have unvisited : taskKey cfg ⟨d, .rateLimit⟩ ∉ s.scheduler.visited := fresh
    refine ⟨?_, fun task member => ?_,
      fun entry member => List.mem_cons_of_mem _ (recorded.landedVisited entry member),
      fun task member waits entry recordedEntry => ?_, recorded.results, recorded.documents⟩
    · rw [List.map_append]
      refine recorded.tasks.append (List.nodup_singleton _) ?_
      rw [List.map_singleton, List.disjoint_singleton]
      intro member
      obtain ⟨task, old, agree⟩ := List.mem_map.mp member
      exact unvisited (agree ▸ recorded.visited task old)
    · rcases List.mem_append.mp member with old | new
      · exact List.mem_cons_of_mem _ (recorded.visited task old)
      · rw [List.mem_singleton.mp new]
        exact List.mem_cons_self ..
    · rcases List.mem_append.mp member with old | new
      · exact recorded.unsent task old waits entry recordedEntry
      · rw [List.mem_singleton.mp new]
        exact fun agree => unvisited (agree ▸ recorded.landedVisited entry recordedEntry)

theorem Recorded.engineMoved {s t : CrawlState υ κ η} (recorded : s.Recorded cfg)
    (moved : EngineMoved cfg s t) : t.Recorded cfg := by
  cases moved with
  | @pass phase cancelled saved passes fires =>
      obtain ⟨scheduler, trace, tasks, -, -, -, -, -, results, -⟩ := saveCheckpoint_frame cfg
         { s with phase := phase, cancelled := cancelled } saved
      exact recorded.frame (by rw [scheduler]) (by rw [trace]) results
        (by rw [tasks])
  | reap found ended here => exact recorded.frame rfl rfl rfl (List.eraseIdx_sublist ..)
  | joined found ended here pending => exact recorded.frame rfl rfl rfl (List.eraseIdx_sublist ..)
  | drain here => exact recorded.frame rfl rfl rfl (List.Sublist.refl _)
  | spawn here room fewer => exact recorded.spawnNext fewer
  | delete here running pending notFull => exact recorded.frame rfl rfl rfl (List.Sublist.refl _)

theorem recorded_startProcess (disk : Option (CrawlCheckpoint υ η × CrawlLog υ))
    (everBanned : List η) : (startProcess cfg disk everBanned).Recorded cfg :=
  ⟨List.nodup_nil, fun _ member => (nomatch member), fun _ member => (nomatch member),
    fun _ member => (nomatch member), rfl, List.nodup_nil⟩

end CrawlState

theorem recorded_crawlStep {s t : CrawlState υ κ η} {a : CrawlAction υ}
    (recorded : s.Recorded cfg) (apart : RedirectsApart cfg s a)
    (step : crawlStep cfg s a = some t) : t.Recorded cfg := by
  rcases crawlStep_cases step with ⟨i, move, rfl, moved⟩ | ⟨move, -, moved⟩ | ⟨-, rfl⟩ | ⟨-, rfl⟩ |
    ⟨-, rfl⟩
  · exact recorded.taskStep apart moved
  · exact recorded.engineMoved moved
  · exact recorded.frame rfl rfl rfl (List.Sublist.refl _)
  · exact recorded.frame rfl rfl rfl (List.Sublist.refl _)
  · exact CrawlState.recorded_startProcess ..

/-- In a history where no two URLs of a process land on one document, the results have pairwise
distinct canonical forms. -/
theorem results_hold_documents_once {as : List (CrawlAction υ)} {t : CrawlState υ κ η}
    (run : execute (crawlStep cfg) (.init cfg) as = some t)
    (apart : Along (crawlStep cfg) (RedirectsApart cfg) (.init cfg) as) :
    (t.results.map fun d => cfg.canonical d.url).Nodup := by
  have recorded : t.Recorded cfg :=
    execute_invariant_along (fun _ _ _ recorded apart step => recorded_crawlStep recorded apart step)
      run apart (CrawlState.recorded_startProcess ..)
  have keys := congrArg (List.map cfg.canonical) recorded.results
  rw [List.map_map, List.map_map] at keys
  exact keys ▸ recorded.documents

end Documents

theorem results_hold_documents_once_of_sample :
    ∃ t, execute (crawlStep (sampleConfig 1)) (.init (sampleConfig 1)) exhaustedCrawl = some t ∧
      t.results.map (·.url) = ["https://site.test/", "https://site.test/a"] ∧
      (t.results.map fun d => (sampleConfig 1).canonical d.url).Nodup := by
  have succeeds : (execute (crawlStep (sampleConfig 1)) (.init (sampleConfig 1)) exhaustedCrawl).any
      (·.results.map (·.url) == ["https://site.test/", "https://site.test/a"]) = true := by
    decide +kernel
  obtain ⟨t, run, both⟩ := (Option.any_eq_true _ _).mp succeeds
  exact ⟨t, run, beq_iff_eq.mp both, results_hold_documents_once run (by decide +kernel)⟩

/-- The seed redirects to `/home`, which its page links to as well: `/home` is recorded twice. -/
theorem redirect_alias_recorded_twice :
    ∃ t, execute (crawlStep (sampleConfig 1)) (.init (sampleConfig 1))
        (loopTurn [] 2 ++ fetchPage 0 "https://site.test/home" ["https://site.test/home"] ++
          pushLinks 0 1 ++ loopTurn [0] 2 ++ fetchPage 0 "https://site.test/home" []) = some t ∧
      t.results.map (·.url) = ["https://site.test/home", "https://site.test/home"] := by
  have succeeds : (execute (crawlStep (sampleConfig 1)) (.init (sampleConfig 1))
      (loopTurn [] 2 ++ fetchPage 0 "https://site.test/home" ["https://site.test/home"] ++
        pushLinks 0 1 ++ loopTurn [0] 2 ++ fetchPage 0 "https://site.test/home" [])).any
      (·.results.map (·.url) == ["https://site.test/home", "https://site.test/home"]) = true := by
    decide +kernel
  obtain ⟨t, run, both⟩ := (Option.any_eq_true _ _).mp succeeds
  exact ⟨t, run, beq_iff_eq.mp both⟩

end Webfang
