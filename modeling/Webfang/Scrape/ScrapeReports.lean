import Webfang.Scrape.ScrapeRuns

/-!
# The report of a run

What `scrape_urls` returns, in whatever order the pages end; what is left of a run behind the
shutdown; and the exit code, which follows from what the pages answered.
-/

namespace Webfang.ScrapeRun

open StepSystem Parties Unordered

variable {υ γ : Type} {ctx : ScrapeContext υ} {s t : ScrapeState υ γ} {urls : List υ}
  {actions : List (ScrapeAction γ)}

/-! ## What is counted -/

def contentOf : Option (υ × PageResult γ) → Option γ
  | some (_, .ok (some content)) => some content
  | _ => none

def failureOf (asStr : υ → String) : Option (υ × PageResult γ) → Option (String × ScraperError)
  | some (url, .error e) => some (asStr url, e)
  | _ => none

def isBlocked : Option (υ × PageResult γ) → Bool
  | some (_, .ok none) => true
  | _ => false

def isSkipped : Option (υ × PageResult γ) → Bool
  | none => true
  | _ => false

/-- The loop over the slots counts each in one place. -/
theorem foldl_add (asStr : υ → String) (outcomes : List (Option (υ × PageResult γ)))
    (report : ScrapeReport γ) :
    outcomes.foldl (ScrapeReport.add asStr) report =
      { results := report.results ++ outcomes.filterMap contentOf
        failures := report.failures ++ outcomes.filterMap (failureOf asStr)
        blocked := report.blocked + outcomes.countP isBlocked
        skipped := report.skipped + outcomes.countP isSkipped } := by
  induction outcomes generalizing report with
  | nil => simp
  | cons outcome rest ih =>
      rw [List.foldl_cons, ih]
      cases outcome with
      | none =>
          simp [ScrapeReport.add, contentOf, failureOf, isBlocked, isSkipped, List.filterMap_cons,
            List.countP_cons]
          omega
      | some page =>
          obtain ⟨url, result⟩ := page
          cases result with
          | error e => simp [ScrapeReport.add, contentOf, failureOf, isBlocked, isSkipped, List.filterMap_cons]
          | ok content =>
              cases content with
              | none =>
                  simp [ScrapeReport.add, contentOf, failureOf, isBlocked, isSkipped, List.filterMap_cons,
            List.countP_cons]
                  omega
              | some content =>
                  simp [ScrapeReport.add, contentOf, failureOf, isBlocked, isSkipped, List.filterMap_cons]

theorem report_eq (ctx : ScrapeContext υ) (s : ScrapeState υ γ) :
    s.report ctx =
      { results := s.buffer.restored.filterMap contentOf
        failures := s.buffer.restored.filterMap (failureOf ctx.asStr)
        blocked := s.buffer.restored.countP isBlocked
        skipped := s.buffer.restored.countP isSkipped } := by
  rw [ScrapeState.report, foldl_add]
  simp only [List.nil_append, Nat.zero_add]

/-- Each slot is in one of the four. -/
theorem counts_sum (asStr : υ → String) (outcomes : List (Option (υ × PageResult γ))) :
    (outcomes.filterMap contentOf).length + (outcomes.filterMap (failureOf asStr)).length +
      outcomes.countP isBlocked + outcomes.countP isSkipped = outcomes.length := by
  induction outcomes with
  | nil => rfl
  | cons outcome rest ih =>
      cases outcome with
      | none =>
          simp [contentOf, failureOf, isBlocked, isSkipped, List.filterMap_cons, List.countP_cons]
          omega
      | some page =>
          obtain ⟨url, result⟩ := page
          cases result with
          | error e =>
              simp [contentOf, failureOf, isBlocked, isSkipped, List.filterMap_cons]
              omega
          | ok content =>
              cases content with
              | none =>
                  simp [contentOf, failureOf, isBlocked, isSkipped, List.filterMap_cons, List.countP_cons]
                  omega
              | some content =>
                  simp [contentOf, failureOf, isBlocked, isSkipped, List.filterMap_cons]
                  omega

theorem filterMap_restored (s : ScrapeState υ γ) {β : Type}
    (f : Option (υ × PageResult γ) → Option β) :
    (s.buffer.finished.filterMap fun result => f result.2).Perm
      (s.buffer.restored.filterMap f) := by
  have perm := s.buffer.restored_perm.symm.filterMap f
  rwa [List.filterMap_map] at perm

/-- In whatever order the pages went on and ended: the `i`-th slot is what became of the `i`-th of
the URLs to process, every slot is counted once, in the order of the URLs, and the pages requested
and answered are those of the slots. -/
theorem report_of_execute (run : execute (scrapeStep ctx) (.init ctx urls) actions = some t)
    (done : t.buffer.isDone = true) :
    List.Forall₂ (Produced ctx t) (applyMaxPagesLimit urls ctx.maxPages) t.buffer.restored ∧
      (t.report ctx).results = t.buffer.restored.filterMap contentOf ∧
      (t.report ctx).failures = t.buffer.restored.filterMap (failureOf ctx.asStr) ∧
      (t.report ctx).results.length + (t.report ctx).failures.length + (t.report ctx).blocked +
        (t.report ctx).skipped = (applyMaxPagesLimit urls ctx.maxPages).length ∧
      t.answers.Perm (t.buffer.restored.filterMap (answered ctx)) ∧
      t.requests.Perm (t.buffer.restored.filterMap (requested ctx)) := by
  have sound := sound_of_execute run
  have slots := sound.tracks.forall₂_restored done
  have idle : t.buffer.running = [] :=
    List.isEmpty_iff.mp (Bool.and_eq_true_iff.mp done).2
  refine ⟨slots, ?_, ?_, ?_, ?_, ?_⟩
  · rw [report_eq]
  · rw [report_eq]
  · rw [report_eq, slots.length_eq]
    exact counts_sum ctx.asStr t.buffer.restored
  · exact sound.answers.trans (filterMap_restored t (answered ctx))
  · have requests := sound.requests
    rw [idle, List.filterMap_nil, List.nil_append] at requests
    exact requests.trans (filterMap_restored t (requested ctx))

/-! ## A run with one page of each kind -/

/-- Two pages at a time; the literal rejects the third URL, and the second was captured. -/
def mixedContext : ScrapeContext String where
  concurrency := 2
  maxPages := none
  ignoreRobots := false
  rateLimited := false
  guard url := if url = "http://10.0.0.1/" then some "10.0.0.1" else none
  captured url := url = "https://b.org/"
  asStr := id

def mixedUrls : List String := ["https://a.org/", "https://b.org/", "http://10.0.0.1/"]

/-- The second page ends first. -/
def mixedActions : List (ScrapeAction String) :=
  [.draw, .draw, .poll 0, .poll 1, .robots 1 true, .answer 1 (.ok "B"), .draw, .robots 0 false,
    .poll 0]

def mixedEnd : ScrapeState String String where
  buffer :=
    { next := 3
      waiting := []
      running := []
      finished :=
        [(1, some ("https://b.org/", .ok (some "B"))), (0, some ("https://a.org/", .ok none)),
          (2, some ("http://10.0.0.1/", .error (.invalidUrl "10.0.0.1")))] }
  cancelled := false
  requests := []
  verdicts := [("https://b.org/", true), ("https://a.org/", false)]
  answers := [("https://b.org/", .ok "B")]

theorem execute_mixed :
    execute (scrapeStep mixedContext) (.init mixedContext mixedUrls) mixedActions = some mixedEnd :=
  rfl

theorem report_of_execute_mixed :
    List.Forall₂ (Produced mixedContext mixedEnd) mixedUrls mixedEnd.buffer.restored ∧
      (mixedEnd.report mixedContext).results = mixedEnd.buffer.restored.filterMap contentOf ∧
      (mixedEnd.report mixedContext).failures =
        mixedEnd.buffer.restored.filterMap (failureOf id) ∧
      (mixedEnd.report mixedContext).results.length +
        (mixedEnd.report mixedContext).failures.length + (mixedEnd.report mixedContext).blocked +
        (mixedEnd.report mixedContext).skipped = 3 ∧
      mixedEnd.answers.Perm (mixedEnd.buffer.restored.filterMap (answered mixedContext)) ∧
      mixedEnd.requests.Perm (mixedEnd.buffer.restored.filterMap (requested mixedContext)) :=
  report_of_execute execute_mixed rfl

/-! ## Behind the shutdown -/

/-- The requests that a page before its fetch may still make. -/
def share (task : Nat × υ × PageStage) : Nat :=
  match task.2.2 with
  | .throttled | .robots => 1
  | .queued | .fetching => 0

/-- Once the shutdown is requested: the pages that were not taken up by then do not begin. -/
structure Late (n : Nat) (s : ScrapeState υ γ) : Prop where
  cancelled : s.cancelled = true
  taken : n ≤ s.buffer.next
  running : ∀ task ∈ s.buffer.running, n ≤ task.1 → task.2.2 = .queued
  finished : ∀ result ∈ s.buffer.finished, n ≤ result.1 → result.2 = none

section Late

variable {n k i : Nat} {url : υ} {stage : PageStage}

theorem Late.before (late : Late n s) (found : s.buffer.running[k]? = some (i, url, stage))
    (begun : stage ≠ .queued) : i < n := by
  by_contra behind
  exact begun (late.running _ (List.mem_of_getElem? found) (Nat.le_of_not_lt behind))

theorem Late.goOn (late : Late n s) (found : s.buffer.running[k]? = some (i, url, stage))
    (begun : stage ≠ .queued) (stage' : PageStage) : Late n (s.goOn k i url stage') where
  cancelled := late.cancelled
  taken := late.taken
  running := forall_mem_set late.running fun behind =>
    absurd (late.before found begun) (Nat.not_lt_of_le behind)
  finished := late.finished

theorem Late.fetch (late : Late n s) (found : s.buffer.running[k]? = some (i, url, stage))
    (begun : stage ≠ .queued) : Late n (s.fetch ctx k i url) :=
  ⟨late.cancelled, late.taken, (late.goOn found begun .fetching).running, late.finished⟩

theorem Late.give (late : Late n s) {outcome : Option (υ × PageResult γ)}
    (given : n ≤ i → outcome = none) : Late n (s.give k i outcome) where
  cancelled := late.cancelled
  taken := late.taken
  running task member := late.running task (List.mem_of_mem_eraseIdx member)
  finished := forall_mem_concat late.finished given

theorem Late.enter (late : Late n s) (found : s.buffer.running[k]? = some (i, url, stage))
    (begun : stage ≠ .queued) : Late n (s.enter ctx k i url) := by
  rw [ScrapeState.enter]
  split
  next rejection _ =>
      exact late.give fun behind => absurd (late.before found begun) (Nat.not_lt_of_le behind)
  next =>
      split
      next => exact late.fetch found begun
      next => exact late.goOn found begun .robots

theorem Late.step {a : ScrapeAction γ} (late : Late n s) (step : scrapeStep ctx s a = some t) :
    Late n t := by
  have early {k i : Nat} {url : υ} {stage : PageStage} {outcome : Option (υ × PageResult γ)}
      (found : s.buffer.running[k]? = some (i, url, stage)) (begun : stage ≠ .queued) :
      n ≤ i → outcome = none :=
    fun behind => absurd (late.before found begun) (Nat.not_lt_of_le behind)
  cases moves_of_step step with
  | draw admitted =>
      obtain ⟨next, finished, input, running⟩ := Buffer.draw_eq_some admitted
      refine ⟨late.cancelled, ?_, ?_, ?_⟩
      · rw [next]
        exact Nat.le_succ_of_le late.taken
      · rw [running]
        exact forall_mem_concat late.running fun _ => rfl
      · rw [finished]
        exact late.finished
  | skip found cancelled => exact late.give fun _ => rfl
  | throttle found live limited =>
      rw [late.cancelled] at live
      cases live
  | poll found live =>
      rw [late.cancelled] at live
      cases live
  | permit found => exact late.enter found (by simp)
  | abandon found cancelled => exact late.give fun _ => rfl
  | @letThrough k i url found =>
      have noted : Late n { s with verdicts := s.verdicts ++ [(url, true)] } :=
        ⟨late.cancelled, late.taken, late.running, late.finished⟩
      exact noted.fetch found (by simp)
  | @turnAway k i url found =>
      have noted : Late n { s with verdicts := s.verdicts ++ [(url, false)] } :=
        ⟨late.cancelled, late.taken, late.running, late.finished⟩
      exact noted.give (early found (by simp))
  | @answer k i url outcome found =>
      have ended : Late n (s.give k i (some (url, outcome.map some))) :=
        late.give (early found (by simp))
      exact ⟨ended.cancelled, ended.taken, ended.running, ended.finished⟩
  | cancel => exact ⟨rfl, late.taken, late.running, late.finished⟩

/-- The requests made, with those that may still be made. -/
def demand (s : ScrapeState υ γ) : Nat :=
  s.requests.length + (s.buffer.running.map share).sum

theorem demand_goOn (found : s.buffer.running[k]? = some (i, url, stage)) (stage' : PageStage) :
    demand (s.goOn k i url stage') + share (i, url, stage) =
      demand s + share (i, url, stage') := by
  have same := sum_set share found (i, url, stage')
  simp only [demand, ScrapeState.goOn, Buffer.advance]
  omega

theorem demand_give (found : s.buffer.running[k]? = some (i, url, stage))
    (outcome : Option (υ × PageResult γ)) : demand (s.give k i outcome) ≤ demand s := by
  have same := Buffer.sum_eraseIdx share found
  simp only [demand, ScrapeState.give, Buffer.complete]
  omega

theorem demand_fetch (found : s.buffer.running[k]? = some (i, url, stage))
    (asks : share (i, url, stage) = 1) : demand (s.fetch ctx k i url) ≤ demand s := by
  have same := demand_goOn found .fetching
  have none_ : share (i, url, PageStage.fetching) = 0 := rfl
  have more : (s.fetch ctx k i url).requests.length ≤ s.requests.length + 1 := by
    unfold ScrapeState.fetch
    dsimp only
    split
    · exact Nat.le_succ _
    · rw [List.length_append, List.length_singleton]
  have still : demand (s.fetch ctx k i url) =
      (s.fetch ctx k i url).requests.length +
        ((s.goOn k i url .fetching).buffer.running.map share).sum := rfl
  have before : demand (s.goOn k i url .fetching) =
      s.requests.length + ((s.goOn k i url .fetching).buffer.running.map share).sum := rfl
  omega

theorem demand_enter (found : s.buffer.running[k]? = some (i, url, stage))
    (asks : share (i, url, stage) = 1) : demand (s.enter ctx k i url) ≤ demand s := by
  rw [ScrapeState.enter]
  split
  next => exact demand_give found _
  next =>
      split
      next => exact demand_fetch found asks
      next =>
          have same := demand_goOn found .robots
          have one : share (i, url, PageStage.robots) = 1 := rfl
          omega

/-- Behind the shutdown no page asks for more than it could before. -/
theorem Late.demand_step {a : ScrapeAction γ} (late : Late n s)
    (step : scrapeStep ctx s a = some t) : demand t ≤ demand s := by
  cases moves_of_step step with
  | draw admitted =>
      obtain ⟨-, -, input, running⟩ := Buffer.draw_eq_some admitted
      have same := sum_concat share s.buffer.running (s.buffer.next, input, .queued)
      have none_ : share (s.buffer.next, input, PageStage.queued) = 0 := rfl
      simp only [demand, running, same, none_]
      omega
  | skip found cancelled => exact demand_give found _
  | throttle found live limited =>
      rw [late.cancelled] at live
      cases live
  | poll found live =>
      rw [late.cancelled] at live
      cases live
  | permit found => exact demand_enter found rfl
  | abandon found cancelled => exact demand_give found _
  | letThrough found => exact demand_fetch found rfl
  | turnAway found => exact demand_give found _
  | answer found => exact demand_give found _
  | cancel => exact le_refl _

end Late

/-- At no time are there more pages under way than the concurrency.  Behind the shutdown at most as
many are still requested, and none of the URLs that were not taken up by then begins. -/
theorem shutdown_of_execute {later : List (ScrapeAction γ)}
    (before : execute (scrapeStep ctx) (.init ctx urls) actions = some s)
    (behind : execute (scrapeStep ctx) { s with cancelled := true } later = some t) :
    t.buffer.running.length ≤ ctx.concurrency ∧
      t.requests.length ≤ s.requests.length + ctx.concurrency ∧
      (t.buffer.isDone = true → ∀ i, s.buffer.next ≤ i →
        i < (applyMaxPagesLimit urls ctx.maxPages).length →
        t.buffer.restored[i]? = some none) := by
  have sound := sound_of_execute before
  have late : Late s.buffer.next { s with cancelled := true } := by
    refine ⟨rfl, le_refl _, fun task member beyond => ?_, fun result member beyond => ?_⟩
    · exact absurd (sound.tracks.lt_next_of_running member) (Nat.not_lt_of_le beyond)
    · exact absurd (sound.tracks.lt_next_of_finished member) (Nat.not_lt_of_le beyond)
  have whole : execute (scrapeStep ctx) (.init ctx urls) (actions ++ .cancel :: later) = some t :=
    execute_append_eq_some.mpr ⟨s, before, execute_cons_eq_some.mpr ⟨_, rfl, behind⟩⟩
  have kept : Late s.buffer.next t ∧ demand t ≤ demand s := by
    refine execute_invariant (I := fun t => Late s.buffer.next t ∧ demand t ≤ demand s) ?_ behind
      ⟨late, le_refl _⟩
    intro m a m' holds step
    exact ⟨holds.1.step step, (holds.1.demand_step step).trans holds.2⟩
  have sound' := sound_of_execute whole
  refine ⟨sound'.tracks.bounded, ?_, fun done i beyond inside => ?_⟩
  · have few : (s.buffer.running.map share).sum ≤ ctx.concurrency := by
      refine le_trans ?_ sound.tracks.bounded
      exact Buffer.sum_le_length fun task _ => by unfold share; split <;> decide
    have most := kept.2
    unfold demand at most
    omega
  · obtain ⟨outcome, numbered, found⟩ := sound'.tracks.getElem?_restored done inside
    have nothing : outcome = none := kept.1.finished _ numbered beyond
    rw [found, nothing]

/-- The first page waits for robots.txt. -/
def firstAsked : ScrapeState String String where
  buffer :=
    { next := 1
      waiting := ["https://b.org/", "http://10.0.0.1/"]
      running := [(0, "https://a.org/", .robots)]
      finished := [] }
  cancelled := false
  requests := []
  verdicts := []
  answers := []

/-- It goes on behind the shutdown, and the others do not begin. -/
def stoppedEnd : ScrapeState String String where
  buffer :=
    { next := 3
      waiting := []
      running := []
      finished := [(0, some ("https://a.org/", .ok (some "A"))), (1, none), (2, none)] }
  cancelled := true
  requests := ["https://a.org/"]
  verdicts := [("https://a.org/", true)]
  answers := [("https://a.org/", .ok "A")]

def stoppedActions : List (ScrapeAction String) :=
  [.robots 0 true, .answer 0 (.ok "A"), .draw, .draw, .poll 0, .poll 0]

theorem execute_firstAsked : execute (scrapeStep mixedContext) (.init mixedContext mixedUrls)
    [.draw, .poll 0] = some firstAsked :=
  rfl

theorem execute_stopped : execute (scrapeStep mixedContext) { firstAsked with cancelled := true }
    stoppedActions = some stoppedEnd :=
  rfl

theorem shutdown_of_execute_stopped :
    stoppedEnd.buffer.running.length ≤ 2 ∧ stoppedEnd.requests.length ≤ 0 + 2 ∧
      stoppedEnd.buffer.restored[2]? = some none := by
  have law := shutdown_of_execute execute_firstAsked execute_stopped
  exact ⟨law.1, law.2.1, law.2.2 rfl 2 (by decide) (by decide)⟩

end Webfang.ScrapeRun
