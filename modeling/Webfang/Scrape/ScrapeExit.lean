import Webfang.Scrape.ScrapeReports

/-!
# The exit code of a run

What the pages answered decides with which code the run ends, and not the order in which they did.
-/

namespace Webfang.ScrapeRun

open StepSystem Unordered

variable {υ γ : Type} {ctx : ScrapeContext υ} {t : ScrapeState υ γ} {urls : List υ}
  {actions : List (ScrapeAction γ)}

/-- A page was answered with an error that `p` holds of. -/
def answeredWith (p : ScraperError → Bool) (s : ScrapeState υ γ) : Bool :=
  s.answers.any fun answer =>
    match answer.2 with
    | .error e => p e
    | .ok _ => false

def answeredContent (s : ScrapeState υ γ) : Bool :=
  s.answers.any fun answer => answer.2.toBool

/-- The exit code by the answers: any content with any failure is a partial success; with neither
content nor failure robots.txt has disallowed all URLs. -/
def exitCode (ctx : ScrapeContext υ) (urls : List υ) (s : ScrapeState υ γ) (exportExit : CliExit) :
    Nat :=
  let failed := answeredWith (fun _ => true) s || urls.any fun url => (ctx.guard url).isSome
  if answeredContent s then
    if failed then 69 else exportExit.report
  else if answeredWith ScraperError.isInternalFatal s then 3
  else if answeredWith (·.permanentIo.isSome) s then 74
  else if answeredWith ScraperError.isExtractionFailed s then 65
  else if failed || urls.isEmpty then 69
  else 77

theorem answeredWith_iff {p : ScraperError → Bool} :
    answeredWith p t = true ↔ ∃ url e, (url, .error e) ∈ t.answers ∧ p e = true := by
  rw [answeredWith, List.any_eq_true]
  constructor
  · intro ⟨answer, member, holds⟩
    obtain ⟨url, outcome⟩ := answer
    cases outcome with
    | error e => exact ⟨url, e, member, holds⟩
    | ok content => cases holds
  · intro ⟨url, e, member, holds⟩
    exact ⟨_, member, holds⟩

theorem answeredContent_iff :
    answeredContent t = true ↔ ∃ url content, (url, .ok content) ∈ t.answers := by
  rw [answeredContent, List.any_eq_true]
  constructor
  · intro ⟨answer, member, holds⟩
    obtain ⟨url, outcome⟩ := answer
    cases outcome with
    | error e => cases holds
    | ok content => exact ⟨url, content, member⟩
  · intro ⟨url, content, member⟩
    exact ⟨_, member, rfl⟩

theorem eq_of_answered_error {outcome : Option (υ × PageResult γ)} {url : υ} {e : ScraperError}
    (same : answered ctx outcome = some (url, .error e)) : outcome = some (url, .error e) := by
  unfold answered at same
  split at same
  next => cases same
  next =>
      split at same
      next => cases same; rfl
      next => cases same
  next => cases same

theorem eq_of_answered_ok {outcome : Option (υ × PageResult γ)} {url : υ} {content : γ}
    (same : answered ctx outcome = some (url, .ok content)) :
    outcome = some (url, .ok (some content)) := by
  unfold answered at same
  split at same
  next => cases same; rfl
  next => split at same <;> cases same
  next => cases same

section Sound

theorem Sound.mem_answers (sound : Sound ctx urls t) {answer : υ × Except ScraperError γ} :
    answer ∈ t.answers ↔ ∃ outcome ∈ t.buffer.restored, answered ctx outcome = some answer := by
  rw [(sound.answers.trans (filterMap_restored t (answered ctx))).mem_iff, List.mem_filterMap]

/-- An error that is no rejection of the guard fails the page it is the answer for. -/
theorem Sound.failures_any (sound : Sound ctx urls t) {p : ScraperError → Bool}
    (rejection : ∀ message, p (.invalidUrl message) = false) :
    (t.report ctx).failures.any (fun failure => p failure.2) = answeredWith p t := by
  rw [Bool.eq_iff_iff, answeredWith_iff, List.any_eq_true, report_eq]
  constructor
  · intro ⟨failure, member, holds⟩
    obtain ⟨outcome, there, made⟩ := List.mem_filterMap.mp member
    obtain ⟨url, -, produced⟩ := sound.tracks.exists_input there
    cases outcome with
    | none => cases made
    | some page =>
        obtain ⟨url', result⟩ := page
        cases result with
        | ok content => cases made
        | error e =>
            cases made
            obtain ⟨rfl, ⟨message, -, rfl⟩ | ⟨-, -, logged⟩⟩ := produced
            · rw [rejection] at holds
              cases holds
            · exact ⟨url', e, logged, holds⟩
  · intro ⟨url, e, logged, holds⟩
    obtain ⟨outcome, there, same⟩ := sound.mem_answers.mp logged
    rw [eq_of_answered_error same] at there
    exact ⟨(ctx.asStr url, e), List.mem_filterMap.mpr ⟨_, there, rfl⟩, holds⟩

theorem Sound.results_eq_nil_iff (sound : Sound ctx urls t) :
    (t.report ctx).results.length = 0 ↔ answeredContent t = false := by
  rw [report_eq, ← Bool.not_eq_true, answeredContent_iff, List.length_eq_zero_iff,
    List.eq_nil_iff_forall_not_mem]
  constructor
  · intro none_ ⟨url, content, logged⟩
    obtain ⟨outcome, there, same⟩ := sound.mem_answers.mp logged
    rw [eq_of_answered_ok same] at there
    exact none_ content (List.mem_filterMap.mpr ⟨_, there, rfl⟩)
  · intro none_ content member
    obtain ⟨outcome, there, made⟩ := List.mem_filterMap.mp member
    obtain ⟨url, -, produced⟩ := sound.tracks.exists_input there
    cases outcome with
    | none => cases made
    | some page =>
        obtain ⟨url', result⟩ := page
        cases result with
        | error e => cases made
        | ok found =>
            cases found with
            | none => cases made
            | some found => exact none_ ⟨url, found, produced.2.2.2⟩

/-- A run that was not shut down fails the URLs that the guard rejects and those answered with an
error. -/
theorem Sound.failures_ne_nil_iff (sound : Sound ctx urls t) (done : t.buffer.isDone = true)
    (live : t.cancelled = false) : (t.report ctx).failures ≠ [] ↔
      (answeredWith (fun _ => true) t || urls.any fun url => (ctx.guard url).isSome) = true := by
  rw [report_eq, Bool.or_eq_true, answeredWith_iff, List.any_eq_true]
  constructor
  · intro some_
    obtain ⟨failure, member⟩ := List.exists_mem_of_ne_nil _ some_
    obtain ⟨outcome, there, made⟩ := List.mem_filterMap.mp member
    obtain ⟨url, among, produced⟩ := sound.tracks.exists_input there
    cases outcome with
    | none => cases made
    | some page =>
        obtain ⟨url', result⟩ := page
        cases result with
        | ok content => cases made
        | error e =>
            obtain ⟨-, ⟨message, rejected, -⟩ | ⟨-, -, logged⟩⟩ := produced
            · exact .inr ⟨url, among, by rw [rejected]; rfl⟩
            · exact .inl ⟨url, e, logged, rfl⟩
  · intro failed
    have fails {url : υ} {e : ScraperError} (there : some (url, .error e) ∈ t.buffer.restored) :
        t.buffer.restored.filterMap (failureOf ctx.asStr) ≠ [] :=
      List.ne_nil_of_mem (List.mem_filterMap.mpr ⟨_, there, rfl⟩)
    rcases failed with ⟨url, e, logged, -⟩ | ⟨url, among, rejected⟩
    · obtain ⟨outcome, there, same⟩ := sound.mem_answers.mp logged
      rw [eq_of_answered_error same] at there
      exact fails there
    · obtain ⟨outcome, there, produced⟩ := sound.tracks.exists_result done among
      cases outcome with
      | none =>
          have skipped : t.cancelled = true := produced
          rw [live] at skipped
          cases skipped
      | some page =>
          obtain ⟨url', result⟩ := page
          cases result with
          | error e => exact fails there
          | ok found =>
              have passed : ctx.guard url = none := by
                cases found with
                | none => exact produced.2.1
                | some content => exact produced.2.1
              rw [passed] at rejected
              cases rejected

/-- With neither content nor failure robots.txt has disallowed every URL. -/
theorem Sound.blocked_eq (sound : Sound ctx urls t) (done : t.buffer.isDone = true)
    (live : t.cancelled = false) (empty : (t.report ctx).results.length = 0)
    (clean : (t.report ctx).failures = []) : (t.report ctx).blocked = urls.length := by
  have sum := counts_sum ctx.asStr t.buffer.restored
  rw [sound.tracks.length_restored done] at sum
  have skipped : t.buffer.restored.countP isSkipped = 0 := by
    rw [List.countP_eq_zero]
    intro outcome there holds
    obtain ⟨url, -, produced⟩ := sound.tracks.exists_input there
    cases outcome with
    | some page => cases holds
    | none =>
        have skipped : t.cancelled = true := produced
        rw [live] at skipped
        cases skipped
  rw [report_eq] at empty clean ⊢
  have none_ : (t.buffer.restored.filterMap (failureOf ctx.asStr)).length = 0 := by
    rw [List.length_eq_zero_iff]
    exact clean
  dsimp only at empty ⊢
  omega

end Sound

theorem report_getD {exit : Option CliExit} {code : Nat} (same : exit.map CliExit.report = some code)
    (other : CliExit) : (exit.getD other).report = code := by
  obtain ⟨found, rfl, rfl⟩ := Option.map_eq_some_iff.mp same
  rfl

/-- The exit code of a run whose vectors were ingested: 0 behind a shutdown, and otherwise the code
of the answers.  `cancelled` is the flag at the end, which the shutdown in the scrape phase sets. -/
theorem exit_of_execute (run : execute (scrapeStep ctx) (.init ctx urls) actions = some t)
    (done : t.buffer.isDone = true) {cancelled : Bool}
    (stays : t.cancelled = true → cancelled = true) (exportExit : CliExit) :
    (runExit (.ok ()) cancelled (t.report ctx).results.length (t.report ctx).failures
        (t.report ctx).blocked exportExit).report =
      if cancelled then 0
      else exitCode ctx (applyMaxPagesLimit urls ctx.maxPages) t exportExit := by
  have sound := sound_of_execute run
  cases cancelled with
  | true => rfl
  | false =>
      have live : t.cancelled = false := by
        cases flag : t.cancelled with
        | false => rfl
        | true => cases stays flag
      have failed := sound.failures_ne_nil_iff done live
      have internal := sound.failures_any (p := ScraperError.isInternalFatal) fun _ => rfl
      have permanent := sound.failures_any (p := (·.permanentIo.isSome)) fun _ => rfl
      have extraction := sound.failures_any (p := ScraperError.isExtractionFailed) fun _ => rfl
      change ((reportPhase (t.report ctx).results.length (t.report ctx).failures
        (t.report ctx).blocked).getD exportExit).report = exitCode _ _ t exportExit
      rw [exitCode]
      cases content : answeredContent t with
      | true =>
          have pages : (t.report ctx).results.length ≠ 0 := fun zero => by
            rw [sound.results_eq_nil_iff.mp zero] at content
            cases content
          rw [if_pos rfl]
          split
          next some_ =>
              have mixed_ := failed.mpr some_
              rw [reportPhase, if_pos ⟨mixed_, pages⟩]
              rfl
          next none_ =>
              have clean : (t.report ctx).failures = [] := by
                by_contra mixed_
                exact none_ (failed.mp mixed_)
              rw [reportPhase_eq_none_iff.mpr ⟨clean, pages⟩]
              rfl
      | false =>
          have empty : (t.report ctx).results.length = 0 := sound.results_eq_nil_iff.mpr content
          rw [if_neg (by simp), empty, ← internal, ← permanent, ← extraction]
          by_cases clean : (t.report ctx).failures = []
          · have none_ : (answeredWith (fun _ => true) t ||
                (applyMaxPagesLimit urls ctx.maxPages).any
                  fun url => (ctx.guard url).isSome) = false := by
              rw [← Bool.not_eq_true]
              exact fun some_ => failed.mpr some_ clean
            have blocked := sound.blocked_eq done live empty clean
            rw [clean, none_]
            refine (report_getD report_blocked exportExit).trans ?_
            rw [blocked]
            cases applyMaxPagesLimit urls ctx.maxPages with
            | nil => rfl
            | cons first rest => rfl
          · rw [failed.mp clean]
            cases fatal : (t.report ctx).failures.any fun failure => failure.2.isInternalFatal with
            | true =>
                have some_ := List.any_eq_true.mp fatal
                exact (report_getD (report_internalFatal some_) exportExit).trans rfl
            | false =>
                have none_ : ∀ failure ∈ (t.report ctx).failures,
                    failure.2.isInternalFatal = false := by
                  intro failure member
                  exact Bool.eq_false_iff.mpr fun holds =>
                    Bool.eq_false_iff.mp fatal (List.any_eq_true.mpr ⟨failure, member, holds⟩)
                exact (report_getD (report_failed clean none_) exportExit).trans rfl

/-- All pages but the disallowed and the rejected one gave content. -/
theorem exit_of_execute_mixed :
    (runExit (.ok ()) false (mixedEnd.report mixedContext).results.length
        (mixedEnd.report mixedContext).failures (mixedEnd.report mixedContext).blocked
        .success).report = exitCode mixedContext mixedUrls mixedEnd .success :=
  exit_of_execute execute_mixed rfl (fun cancelled => cancelled) .success

end Webfang.ScrapeRun
