import Webfang.Crawler.Documents

/-!
# Banned hosts

The ban list is written, saved and restored, and no dispatch reads it: what keeps a ban is that
no URL of a banned host waits unvisited when the loop looks for its next one.
-/

set_option linter.unusedSectionVars false

namespace Webfang

open StepSystem

section Bans

variable {υ κ η : Type} [LinearOrder υ] [DecidableEq κ] [DecidableEq η] {cfg : CrawlConfig υ κ η}

/-- No unvisited URL of a host that has been banned is in the pending buffer when the loop looks
for its next URL. -/
def BannedHostsExhausted (cfg : CrawlConfig υ κ η) (s : CrawlState υ κ η) : CrawlAction υ → Prop
  | .engine (.spawn _) => ∀ d ∈ s.scheduler.pending, cfg.canonical d.url ∉ s.scheduler.visited →
      ∀ domain ∈ cfg.host d.url, domain ∉ s.trace.everBanned
  | _ => True

instance (s : CrawlState υ κ η) (a : CrawlAction υ) :
    Decidable (BannedHostsExhausted cfg s a) :=
  match a with
  | .engine (.spawn _) => inferInstanceAs (Decidable (∀ d ∈ s.scheduler.pending, _))
  | .engine (.head _) | .engine (.reap _) | .engine .reapDone | .engine .recheck
    | .engine .drain | .engine (.periodic _) | .engine (.wait _ _) | .engine (.join _)
    | .engine .timeout | .engine .drained | .engine (.final _) | .task _ _ | .signal | .cancel
    | .restart => .isTrue True.intro

/-- A URL of the host is fetched here only by a task dispatched as one of `earlier`. -/
def FetchesOnlyFor (cfg : CrawlConfig υ κ η) (domain : η) (earlier : List (DiscoveredUrl υ))
    (s : CrawlState υ κ η) : CrawlAction υ → Prop
  | .task i (.fetch _) => ∀ task ∈ s.tasks[i]?, cfg.host task.discovered.url = some domain →
      task.discovered ∈ earlier
  | _ => True

namespace CrawlState

/-- The ban lists, in memory and on disk, hold hosts that were banned; tasks are dispatched. -/
structure BansKnown (s : CrawlState υ κ η) : Prop where
  banned : ∀ domain ∈ s.banned, domain ∈ s.trace.everBanned
  saved : ∀ file ∈ s.disk, ∀ domain ∈ file.1.bannedDomains, domain ∈ s.trace.everBanned
  tasks : ∀ task ∈ s.tasks, task.discovered ∈ s.trace.started

/-- The host has been banned, and its tasks are among the earlier ones. -/
structure BanKept (cfg : CrawlConfig υ κ η) (domain : η) (earlier : List (DiscoveredUrl υ))
    (s : CrawlState υ κ η) : Prop where
  banned : domain ∈ s.trace.everBanned
  tasks : ∀ task ∈ s.tasks, cfg.host task.discovered.url = some domain →
    task.discovered ∈ earlier

/-! ## Tasks -/

variable (cfg) in
/-- An effect only adds to the bans, and what it adds it records. -/
theorem effect_bans (s : CrawlState υ κ η) (d : DiscoveredUrl υ) (e : TaskEffect υ) :
    (∀ domain ∈ s.trace.everBanned, domain ∈ (s.effect cfg d e).trace.everBanned) ∧
      ∀ domain ∈ (s.effect cfg d e).banned, domain ∈ s.banned ∨
        domain ∈ (s.effect cfg d e).trace.everBanned := by
  cases e with
  | ban =>
      change (∀ domain ∈ s.trace.everBanned, domain ∈ (s.ban (cfg.host d.url)).trace.everBanned) ∧
        ∀ domain ∈ (s.ban (cfg.host d.url)).banned, domain ∈ s.banned ∨
          domain ∈ (s.ban (cfg.host d.url)).trace.everBanned
      cases cfg.host d.url with
      | none => exact ⟨fun domain member => member, fun domain member => .inl member⟩
      | some new =>
          refine ⟨fun domain member => List.mem_append_left _ member, fun domain member => ?_⟩
          change domain ∈ (if new ∈ s.banned then s.banned else s.banned ++ [new]) at member
          split at member
          · exact .inl member
          · exact (List.mem_append.mp member).imp_right (List.mem_append_right _)
  | quiet | fetched | counted | sent | marked | pushed =>
      exact ⟨fun domain member => member, fun domain member => .inl member⟩

theorem setPc_bans (s : CrawlState υ κ η) (i : Nat) (d : DiscoveredUrl υ) (pc : TaskPc υ) :
    (s.setPc i d pc).trace.everBanned = s.trace.everBanned ∧
      (s.setPc i d pc).banned = s.banned := by
  cases pc <;> exact ⟨rfl, rfl⟩

/-- What a task's move does to the tasks and the bans. -/
theorem taskStep_bans {s t : CrawlState υ κ η} {i : Nat} {move : TaskMove υ}
    (step : s.taskStep cfg i move = some t) :
    (∀ domain ∈ s.trace.everBanned, domain ∈ t.trace.everBanned) ∧
      (∀ domain ∈ t.banned, domain ∈ s.banned ∨ domain ∈ t.trace.everBanned) ∧
      ∀ task ∈ t.tasks, ∃ before ∈ s.tasks, before.discovered = task.discovered := by
  obtain ⟨task, pc, effect, found, -, rfl⟩ := taskStep_cases step
  obtain ⟨grows, recorded⟩ := s.effect_bans cfg task.discovered effect
  obtain ⟨everBanned, banned⟩ :=
    setPc_bans (s.effect cfg task.discovered effect) i task.discovered pc
  rw [everBanned, banned]
  refine ⟨grows, recorded, fun other member => ?_⟩
  rcases List.mem_or_eq_of_mem_set member with old | rfl
  · rw [(s.effect_tasks cfg _ _).1] at old
    exact ⟨other, old, rfl⟩
  · exact ⟨task, List.mem_of_getElem? found, rfl⟩

/-! ## The engine -/

/-- What a move of the engine does to the tasks and the bans. -/
theorem EngineMoved.bans {s t : CrawlState υ κ η} (moved : EngineMoved cfg s t) :
    t.trace.everBanned = s.trace.everBanned ∧ t.banned = s.banned ∧
      (∀ file ∈ t.disk, file ∈ s.disk ∨ file.1.bannedDomains = s.banned) ∧
      (∀ d ∈ s.trace.started, d ∈ t.trace.started) ∧
      ∀ task ∈ t.tasks, task ∈ s.tasks ∨ (task.discovered ∈ t.trace.started ∧
        s.phase = .spawn ∧ task.discovered ∈ s.scheduler.pending ∧
        cfg.canonical task.discovered.url ∉ s.scheduler.visited) := by
  cases moved with
  | @pass phase cancelled saved passes fires =>
      obtain ⟨-, trace, tasks, -, -, -, -, -, -, banned⟩ := saveCheckpoint_frame cfg
        { s with phase := phase, cancelled := cancelled } saved
      rw [trace, tasks, banned]
      refine ⟨rfl, rfl, fun file held => ?_, fun d member => member, fun task member => .inl member⟩
      unfold CrawlState.saveCheckpoint at held
      split at held
      · cases held
        exact .inr rfl
      · exact .inl held
  | reap found ended here =>
      exact ⟨rfl, rfl, fun file held => .inl held, fun d member => member,
        fun task member => .inl (List.mem_of_mem_eraseIdx member)⟩
  | joined found ended here pending =>
      exact ⟨rfl, rfl, fun file held => .inl held, fun d member => member,
        fun task member => .inl (List.mem_of_mem_eraseIdx member)⟩
  | drain here =>
      exact ⟨rfl, rfl, fun file held => .inl held, fun d member => member,
        fun task member => .inl member⟩
  | spawn here room fewer =>
      rcases spawnNext_cases cfg fewer with
        ⟨next, -⟩ | ⟨skipped, d, rest, next, split, fresh, -⟩
      · rw [next]
        exact ⟨rfl, rfl, fun file held => .inl held, fun d member => member,
          fun task member => .inl member⟩
      · rw [next]
        refine ⟨rfl, rfl, fun file held => .inl held,
          fun d member => List.mem_append_left _ member, fun task member => ?_⟩
        rcases List.mem_append.mp member with old | new
        · exact .inl old
        · rw [List.mem_singleton.mp new]
          exact .inr ⟨List.mem_append_right _ (List.mem_singleton.mpr rfl), here,
            split ▸ List.mem_append_right _ (List.mem_cons_self ..), fresh⟩
  | delete here running pending notFull =>
      refine ⟨rfl, rfl, fun file held => ?_, fun d member => member, fun task member => .inl member⟩
      dsimp only at held
      split at held
      · cases held
      · exact .inl held

/-- The loop dispatches in its spawn phase only. -/
theorem phase_of_engineStep_ne_spawn {s t : CrawlState υ κ η} {move : EngineMove}
    (other : ∀ limit, move ≠ .spawn limit) (step : s.engineStep cfg move = some t) :
    s.phase ≠ .spawn := by
  intro here
  unfold engineStep at step
  rw [here] at step
  cases move with
  | spawn limit => exact other limit rfl
  | _ => cases step

theorem bansKnown_crawlStep {s t : CrawlState υ κ η} {a : CrawlAction υ} (known : s.BansKnown)
    (step : crawlStep cfg s a = some t) : t.BansKnown := by
  rcases crawlStep_cases step with ⟨i, move, -, moved⟩ | ⟨move, -, moved⟩ | ⟨-, rfl⟩ | ⟨-, rfl⟩ |
    ⟨-, rfl⟩
  · have same := taskStep_sameEngine moved
    obtain ⟨grows, recorded, tasks⟩ := taskStep_bans moved
    refine ⟨fun domain member => ?_, fun file held domain member => ?_, fun task member => ?_⟩
    · exact (recorded domain member).elim (fun old => grows _ (known.banned _ old)) id
    · rw [same.disk] at held
      exact grows _ (known.saved file held domain member)
    · obtain ⟨before, old, agree⟩ := tasks task member
      rw [same.started, ← agree]
      exact known.tasks before old
  · obtain ⟨everBanned, banned, disk, started, tasks⟩ := moved.bans
    refine ⟨?_, fun file held domain member => ?_, fun task member => ?_⟩
    · rw [everBanned, banned]
      exact known.banned
    · rw [everBanned]
      rcases disk file held with old | new
      · exact known.saved file old domain member
      · rw [new] at member
        exact known.banned domain member
    · rcases tasks task member with old | ⟨new, -⟩
      · exact started _ (known.tasks task old)
      · exact new
  · exact ⟨known.banned, known.saved, known.tasks⟩
  · exact ⟨known.banned, known.saved, known.tasks⟩
  · refine ⟨fun domain member => ?_, known.saved, fun task member => nomatch member⟩
    cases held : s.disk with
    | none =>
        rw [held] at member
        cases member
    | some file =>
        rw [held] at member
        exact known.saved file held domain member

/-- From a state where the host has been banned on, as long as none of its URLs waits unvisited
when the loop dispatches, none of them gets a task. -/
theorem BanKept.crawlStep {s t : CrawlState υ κ η} {a : CrawlAction υ} {domain : η}
    {earlier : List (DiscoveredUrl υ)} (kept : s.BanKept cfg domain earlier)
    (exhausted : BannedHostsExhausted cfg s a) (step : crawlStep cfg s a = some t) :
    t.BanKept cfg domain earlier := by
  rcases crawlStep_cases step with ⟨i, move, -, moved⟩ | ⟨move, rfl, moved⟩ | ⟨-, rfl⟩ | ⟨-, rfl⟩ |
    ⟨-, rfl⟩
  · obtain ⟨grows, -, tasks⟩ := taskStep_bans moved
    refine ⟨grows _ kept.banned, fun task member onHost => ?_⟩
    obtain ⟨before, old, agree⟩ := tasks task member
    rw [← agree] at onHost ⊢
    exact kept.tasks before old onHost
  · obtain ⟨everBanned, -, -, -, tasks⟩ := moved.bans
    refine ⟨everBanned ▸ kept.banned, fun task member onHost => ?_⟩
    rcases tasks task member with old | ⟨-, here, waits, fresh⟩
    · exact kept.tasks task old onHost
    · cases move with
      | spawn limit => exact absurd kept.banned (exhausted _ waits fresh domain onHost)
      | _ => exact absurd here (phase_of_engineStep_ne_spawn (by simp) step)
  · exact ⟨kept.banned, kept.tasks⟩
  · exact ⟨kept.banned, kept.tasks⟩
  · exact ⟨kept.banned, fun task member => nomatch member⟩

theorem BanKept.fetchesOnlyFor {s : CrawlState υ κ η} {domain : η}
    {earlier : List (DiscoveredUrl υ)} (kept : s.BanKept cfg domain earlier)
    (a : CrawlAction υ) : FetchesOnlyFor cfg domain earlier s a := by
  unfold FetchesOnlyFor
  split
  · exact fun task found onHost => kept.tasks task (List.mem_of_getElem? found) onHost
  · trivial

end CrawlState

/-- From a state on where the host is banned, and as long as no unvisited URL of a banned host
is pending when the loop dispatches, a URL of the host is fetched only by tasks that had started
before, and by none in a process that is resumed. -/
theorem ban_holds {as bs : List (CrawlAction υ)} {m : CrawlState υ κ η} {domain : η}
    (run : execute (crawlStep cfg) (.init cfg) as = some m) (banned : domain ∈ m.banned)
    (exhausted : Along (crawlStep cfg) (BannedHostsExhausted cfg) m bs) :
    Along (crawlStep cfg) (FetchesOnlyFor cfg domain m.trace.started) m bs ∧
      ∀ cs ds n, bs = cs ++ .restart :: ds →
        execute (crawlStep cfg) m (cs ++ [.restart]) = some n →
        Along (crawlStep cfg) (FetchesOnlyFor cfg domain []) n ds := by
  have known : m.BansKnown :=
    execute_invariant (fun _ _ _ known step => CrawlState.bansKnown_crawlStep known step) run
      ⟨fun _ member => (nomatch member), fun _ held => (by cases held),
        fun _ member => nomatch member⟩
  have continues : ∀ {s : CrawlState υ κ η} {earlier : List (DiscoveredUrl υ)}
      {ds : List (CrawlAction υ)}, s.BanKept cfg domain earlier →
      Along (crawlStep cfg) (BannedHostsExhausted cfg) s ds →
      Along (crawlStep cfg) (FetchesOnlyFor cfg domain earlier) s ds := fun kept along =>
    along.of_invariant (fun _ _ _ kept exhausted step => kept.crawlStep exhausted step)
      (fun _ a kept _ => kept.fetchesOnlyFor a) kept
  have here : m.BanKept cfg domain m.trace.started :=
    ⟨known.banned domain banned, fun task member _ => known.tasks task member⟩
  refine ⟨continues here exhausted, fun cs ds n split restarted => ?_⟩
  subst split
  obtain ⟨before, after⟩ := along_append.mp exhausted
  obtain ⟨p, ran, next⟩ := execute_append_eq_some.mp restarted
  obtain ⟨q, step, last⟩ := execute_cons_eq_some.mp next
  cases last
  have kept : p.BanKept cfg domain m.trace.started := execute_invariant_along
    (fun _ _ _ kept exhausted step => kept.crawlStep exhausted step) ran before here
  refine continues ⟨(kept.crawlStep (after p ran).1 step).banned, ?_⟩ ((after p ran).2 _ step)
  cases step
  exact fun task member => nomatch member

end Bans

/-- The seed links to two pages of its host, the tasks of both start, and the first one runs
into a challenge. -/
def challengedCrawl : List (CrawlAction String) :=
  loopTurn [] 2 ++
    fetchPage 0 "https://site.test/" ["https://site.test/a", "https://site.test/b"] ++
    pushLinks 0 2 ++ loopTurn [0] 3 ++
    [.task 0 .ready, .task 0 (.acquire true), .task 0 (.fetch (.failed true))]

theorem ban_holds_for_later_tasks :
    ∃ m, execute (crawlStep (sampleConfig 1)) (.init (sampleConfig 1)) challengedCrawl = some m ∧
      "site.test" ∈ m.banned ∧
      Along (crawlStep (sampleConfig 1))
        (FetchesOnlyFor (sampleConfig 1) "site.test" m.trace.started) m
        (fetchPage 1 "https://site.test/b" []) := by
  have succeeds : (execute (crawlStep (sampleConfig 1)) (.init (sampleConfig 1))
      challengedCrawl).any (fun m => decide ("site.test" ∈ m.banned)) = true := by
    decide +kernel
  obtain ⟨m, run, banned⟩ := (Option.any_eq_true _ _).mp succeeds
  have exhausted : Along (crawlStep (sampleConfig 1)) (BannedHostsExhausted (sampleConfig 1)) m
      (fetchPage 1 "https://site.test/b" []) :=
    Along.of_forall (fun a member s => by
      simp only [fetchPage, List.mem_cons, List.not_mem_nil, or_false] at member
      rcases member with rfl | rfl | rfl | rfl | rfl | rfl <;> trivial) m
  exact ⟨m, run, of_decide_eq_true banned,
    (ban_holds run (of_decide_eq_true banned) exhausted).1⟩

/-- The seed's task still has a link to push when the task of `/a` gets the host banned. -/
def challengedEarly : List (CrawlAction String) :=
  loopTurn [] 2 ++
    fetchPage 0 "https://site.test/" ["https://site.test/a", "https://site.test/b"] ++
    [.task 0 (.link true), .task 0 .push] ++ loopTurn [] 2 ++
    [.task 1 .ready, .task 1 (.acquire true), .task 1 (.fetch (.failed true))]

/-- The link is pushed, dispatched and fetched on the banned host. -/
theorem banned_host_is_fetched :
    ∃ m t, execute (crawlStep (sampleConfig 1)) (.init (sampleConfig 1)) challengedEarly = some m ∧
      "site.test" ∈ m.banned ∧
      ⟨"https://site.test/b", 1, "https://site.test/"⟩ ∉ m.trace.started ∧
      execute (crawlStep (sampleConfig 1)) m (pushLinks 0 1 ++ loopTurn [0, 0] 2 ++
        [.task 0 .ready, .task 0 (.acquire true),
          .task 0 (.fetch (.page "https://site.test/b" []))]) = some t ∧
      t.tasks = [⟨⟨"https://site.test/b", 1, "https://site.test/"⟩,
        .fetched "https://site.test/b" []⟩] := by
  have succeeds : (execute (crawlStep (sampleConfig 1)) (.init (sampleConfig 1))
      challengedEarly).any (fun m => decide ("site.test" ∈ m.banned ∧
        ⟨"https://site.test/b", 1, "https://site.test/"⟩ ∉ m.trace.started) &&
      (execute (crawlStep (sampleConfig 1)) m (pushLinks 0 1 ++ loopTurn [0, 0] 2 ++
        [.task 0 .ready, .task 0 (.acquire true),
          .task 0 (.fetch (.page "https://site.test/b" []))])).any (fun t => decide (t.tasks =
        [⟨⟨"https://site.test/b", 1, "https://site.test/"⟩,
          .fetched "https://site.test/b" []⟩]))) = true := by
    decide +kernel
  obtain ⟨m, run, both⟩ := (Option.any_eq_true _ _).mp succeeds
  rw [Bool.and_eq_true] at both
  obtain ⟨t, later, tasks⟩ := (Option.any_eq_true _ _).mp both.2
  obtain ⟨banned, fresh⟩ := of_decide_eq_true both.1
  exact ⟨m, t, run, banned, fresh, later, of_decide_eq_true tasks⟩

end Webfang
