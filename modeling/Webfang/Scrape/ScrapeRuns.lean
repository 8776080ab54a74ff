import Webfang.Scrape.ScrapePhase

/-!
# Runs of the scrape phase

Whatever the order in which pages go on and end: the report has one entry for each URL, in the order
of the URLs, and the pages requested are those whose entry needed a request, each once.  The exit
code follows from what the pages answered.
-/

namespace Webfang.ScrapeRun

open StepSystem Parties Unordered

variable {υ γ : Type} {ctx : ScrapeContext υ} {s t : ScrapeState υ γ}

/-! ## What a move does -/

inductive Moves (ctx : ScrapeContext υ) (s : ScrapeState υ γ) :
    ScrapeAction γ → ScrapeState υ γ → Prop
  | draw {buffer : Buffer υ (υ × PageStage) (Option (υ × PageResult γ))}
      (admitted : s.buffer.draw ctx.concurrency (·, .queued) = some buffer) :
      Moves ctx s .draw { s with buffer := buffer }
  | skip {k i : Nat} {url : υ} (found : s.buffer.running[k]? = some (i, url, .queued))
      (cancelled : s.cancelled = true) : Moves ctx s (.poll k) (s.give k i none)
  | throttle {k i : Nat} {url : υ} (found : s.buffer.running[k]? = some (i, url, .queued))
      (live : s.cancelled = false) (limited : ctx.rateLimited = true) :
      Moves ctx s (.poll k) (s.goOn k i url .throttled)
  | poll {k i : Nat} {url : υ} (found : s.buffer.running[k]? = some (i, url, .queued))
      (live : s.cancelled = false) : Moves ctx s (.poll k) (s.enter ctx k i url)
  | permit {k i : Nat} {url : υ} (found : s.buffer.running[k]? = some (i, url, .throttled)) :
      Moves ctx s (.permit k) (s.enter ctx k i url)
  | abandon {k i : Nat} {url : υ} (found : s.buffer.running[k]? = some (i, url, .throttled))
      (cancelled : s.cancelled = true) : Moves ctx s (.abandon k) (s.give k i none)
  | letThrough {k i : Nat} {url : υ} (found : s.buffer.running[k]? = some (i, url, .robots)) :
      Moves ctx s (.robots k true)
        ({ s with verdicts := s.verdicts ++ [(url, true)] }.fetch ctx k i url)
  | turnAway {k i : Nat} {url : υ} (found : s.buffer.running[k]? = some (i, url, .robots)) :
      Moves ctx s (.robots k false)
        ({ s with verdicts := s.verdicts ++ [(url, false)] }.give k i (some (url, .ok none)))
  | answer {k i : Nat} {url : υ} {outcome : Except ScraperError γ}
      (found : s.buffer.running[k]? = some (i, url, .fetching)) :
      Moves ctx s (.answer k outcome)
        { s.give k i (some (url, outcome.map some)) with
          answers := s.answers ++ [(url, outcome)] }
  | cancel : Moves ctx s .cancel { s with cancelled := true }

theorem moves_of_step {a : ScrapeAction γ} (step : scrapeStep ctx s a = some t) :
    Moves ctx s a t := by
  cases a with
  | draw =>
      obtain ⟨buffer, admitted, rfl⟩ := Option.map_eq_some_iff.mp step
      exact .draw admitted
  | poll k =>
      simp only [scrapeStep] at step
      split at step
      next i url found =>
          split at step
          next cancelled => cases step; exact .skip found cancelled
          next live =>
              have live := Bool.eq_false_iff.mpr live
              split at step
              next limited => cases step; exact .throttle found live limited
              next => cases step; exact .poll found live
      next => cases step
  | permit k =>
      simp only [scrapeStep] at step
      split at step
      next i url found => cases step; exact .permit found
      next => cases step
  | abandon k =>
      simp only [scrapeStep] at step
      split at step
      next i url found =>
          split at step
          next cancelled => cases step; exact .abandon found cancelled
          next => cases step
      next => cases step
  | robots k allowed =>
      simp only [scrapeStep] at step
      split at step
      next i url found =>
          cases allowed with
          | true => cases step; exact .letThrough found
          | false => cases step; exact .turnAway found
      next => cases step
  | answer k outcome =>
      simp only [scrapeStep] at step
      split at step
      next i url found => cases step; exact .answer found
      next => cases step
  | cancel => cases step; exact .cancel

/-! ## Entries of the report -/

/-- Robots.txt lets the page through. -/
def Allowed (ctx : ScrapeContext υ) (s : ScrapeState υ γ) (url : υ) : Prop :=
  ctx.ignoreRobots = true ∨ (url, true) ∈ s.verdicts

/-- What an entry of the report says about the URL. -/
def Produced (ctx : ScrapeContext υ) (s : ScrapeState υ γ) (url : υ) :
    Option (υ × PageResult γ) → Prop
  | none => s.cancelled = true
  | some (url', .error e) => url' = url ∧
      ((∃ rejection, ctx.guard url = some rejection ∧ e = .invalidUrl rejection) ∨
        (ctx.guard url = none ∧ Allowed ctx s url ∧ (url, .error e) ∈ s.answers))
  | some (url', .ok none) => url' = url ∧ ctx.guard url = none ∧ ctx.ignoreRobots = false ∧
      (url, false) ∈ s.verdicts
  | some (url', .ok (some content)) => url' = url ∧ ctx.guard url = none ∧ Allowed ctx s url ∧
      (url, .ok content) ∈ s.answers

/-- What holds of a page that is under way. -/
def Underway (ctx : ScrapeContext υ) (s : ScrapeState υ γ) (url : υ) (task : υ × PageStage) : Prop :=
  task.1 = url ∧
    match task.2 with
    | .queued => True
    | .throttled => ctx.rateLimited = true
    | .robots => ctx.guard url = none ∧ ctx.ignoreRobots = false
    | .fetching => ctx.guard url = none ∧ Allowed ctx s url

/-- The answer that the entry is made of: none for a page skipped, rejected or disallowed. -/
def answered (ctx : ScrapeContext υ) :
    Option (υ × PageResult γ) → Option (υ × Except ScraperError γ)
  | some (url, .ok (some content)) => some (url, .ok content)
  | some (url, .error e) => if (ctx.guard url).isNone then some (url, .error e) else none
  | _ => none

/-- The URL that was requested for the entry. -/
def requested (ctx : ScrapeContext υ) (outcome : Option (υ × PageResult γ)) : Option υ :=
  ((answered ctx outcome).map Prod.fst).filter fun url => !ctx.captured url

/-- The URL that was requested for a page under way. -/
def pending (ctx : ScrapeContext υ) (task : Nat × υ × PageStage) : Option υ :=
  if task.2.2 = .fetching ∧ ctx.captured task.2.1 = false then some task.2.1 else none

/-- What every order of the moves keeps. -/
structure Sound (ctx : ScrapeContext υ) (urls : List υ) (s : ScrapeState υ γ) : Prop where
  tracks : s.buffer.Tracks urls ctx.concurrency (Underway ctx s) (Produced ctx s)
  answers : s.answers.Perm (s.buffer.finished.filterMap fun result => answered ctx result.2)
  requests : s.requests.Perm (s.buffer.running.filterMap (pending ctx) ++
    s.buffer.finished.filterMap fun result => requested ctx result.2)

section Sound

variable {urls : List υ}

theorem sound_init (ctx : ScrapeContext υ) (urls : List υ) :
    Sound ctx (applyMaxPagesLimit urls ctx.maxPages) (.init ctx urls : ScrapeState υ γ) where
  tracks := Buffer.tracks_start _ _
  answers := .refl _
  requests := .refl _

/-- What was noted stays noted. -/
theorem Underway.mono {url : υ} {task : υ × PageStage} (under : Underway ctx s url task)
    (verdicts : s.verdicts ⊆ t.verdicts) : Underway ctx t url task := by
  obtain ⟨same, holds⟩ := under
  refine ⟨same, ?_⟩
  cases stage : task.2 with
  | fetching =>
      rw [stage] at holds
      exact ⟨holds.1, holds.2.imp_right fun member => verdicts member⟩
  | queued => trivial
  | throttled =>
      rw [stage] at holds
      exact holds
  | robots =>
      rw [stage] at holds
      exact holds

theorem Produced.mono {url : υ} {outcome : Option (υ × PageResult γ)}
    (produced : Produced ctx s url outcome) (cancelled : s.cancelled = true → t.cancelled = true)
    (verdicts : s.verdicts ⊆ t.verdicts) (answers : s.answers ⊆ t.answers) :
    Produced ctx t url outcome := by
  cases outcome with
  | none => exact cancelled produced
  | some page =>
      obtain ⟨_, result⟩ := page
      cases result with
      | error e =>
          obtain ⟨same, rejected | ⟨passed, allowed, member⟩⟩ := produced
          · exact ⟨same, .inl rejected⟩
          · exact ⟨same, .inr ⟨passed, allowed.imp_right fun member => verdicts member,
              answers member⟩⟩
      | ok content =>
          cases content with
          | none =>
              obtain ⟨same, passed, asked, member⟩ := produced
              exact ⟨same, passed, asked, verdicts member⟩
          | some content =>
              obtain ⟨same, passed, allowed, member⟩ := produced
              exact ⟨same, passed, allowed.imp_right fun member => verdicts member,
                answers member⟩

theorem Sound.note (sound : Sound ctx urls s) (verdicts : List (υ × Bool)) :
    Sound ctx urls { s with verdicts := s.verdicts ++ verdicts } where
  tracks := sound.tracks.mono
    (fun _ _ under => under.mono (List.subset_append_left ..))
    (fun _ _ produced => produced.mono id (List.subset_append_left ..) (List.Subset.refl _))
  answers := sound.answers
  requests := sound.requests

variable {k i : Nat} {url : υ} {stage : PageStage}

theorem Sound.underway (sound : Sound ctx urls s)
    (found : s.buffer.running[k]? = some (i, url, stage)) : Underway ctx s url (url, stage) := by
  obtain ⟨input, -, under⟩ := sound.tracks.running _ (List.mem_of_getElem? found)
  have same : url = input := under.1
  subst same
  exact under

/-- A page goes on, and asks for nothing. -/
theorem Sound.goOn (sound : Sound ctx urls s) (found : s.buffer.running[k]? = some (i, url, stage))
    {stage' : PageStage} (before : stage ≠ .fetching) (behind : stage' ≠ .fetching)
    (goes : Underway ctx s url (url, stage) → Underway ctx s url (url, stage')) :
    Sound ctx urls (s.goOn k i url stage') where
  tracks := by
    refine sound.tracks.advance found fun input under => ?_
    have same : url = input := under.1
    subst same
    exact goes under
  answers := sound.answers
  requests := by
    have perm := filterMap_set_perm (pending ctx) found (i, url, stage')
    rw [pending, pending, if_neg (fun both => before both.1), if_neg (fun both => behind both.1)]
      at perm
    simp only [Option.toList_none, List.append_nil] at perm
    exact sound.requests.trans (perm.symm.append_right _)

/-- A page that is let through is requested, unless its body was captured. -/
theorem Sound.fetch (sound : Sound ctx urls s) (found : s.buffer.running[k]? = some (i, url, stage))
    (before : stage ≠ .fetching) (passed : ctx.guard url = none) (allowed : Allowed ctx s url) :
    Sound ctx urls (s.fetch ctx k i url) where
  tracks := by
    refine (sound.tracks.mono ?_ ?_).advance found fun input under => ?_
    · exact fun _ _ under => under.mono (List.Subset.refl _)
    · exact fun _ _ produced => produced.mono id (List.Subset.refl _) (List.Subset.refl _)
    · have same : url = input := under.1
      subst same
      exact ⟨rfl, passed, allowed⟩
  answers := sound.answers
  requests := by
    have perm := filterMap_set_perm (pending ctx) found (i, url, .fetching)
    have idle : pending ctx (i, url, stage) = none := if_neg fun both => before both.1
    rw [idle] at perm
    change (if ctx.captured url = true then s.requests else s.requests ++ [url]).Perm
      ((s.buffer.running.set k (i, url, .fetching)).filterMap (pending ctx) ++ _)
    cases captured : ctx.captured url with
    | true =>
        have quiet : pending ctx (i, url, .fetching) = none :=
          if_neg fun both => by rw [captured] at both; cases both.2
        rw [quiet] at perm
        simp only [Option.toList_none, List.append_nil] at perm
        exact sound.requests.trans (perm.symm.append_right _)
    | false =>
        have asks : pending ctx (i, url, .fetching) = some url := if_pos ⟨rfl, captured⟩
        rw [asks] at perm
        simp only [Option.toList_none, List.append_nil, Option.toList_some] at perm
        refine (sound.requests.append_right [url]).trans ?_
        rw [List.append_assoc]
        refine (List.perm_append_comm.append_left _).trans ?_
        rw [← List.append_assoc]
        exact perm.symm.append_right _

theorem filterMap_one {α β : Type} (f : α → Option β) (x : α) : [x].filterMap f = (f x).toList := by
  rw [List.filterMap_cons]
  cases f x <;> rfl

/-- A page ends, with what it noted before. -/
theorem Sound.give (sound : Sound ctx urls s) (found : s.buffer.running[k]? = some (i, url, stage))
    {outcome : Option (υ × PageResult γ)} {answers : List (υ × Except ScraperError γ)}
    (logged : answers = (answered ctx outcome).toList)
    (asked : requested ctx outcome = pending ctx (i, url, stage))
    (gives : Underway ctx s url (url, stage) →
      Produced ctx { s with answers := s.answers ++ answers } url outcome) :
    Sound ctx urls { s.give k i outcome with answers := s.answers ++ answers } where
  tracks := by
    have noted : s.buffer.Tracks urls ctx.concurrency (Underway ctx s)
        (Produced ctx { s with answers := s.answers ++ answers }) :=
      sound.tracks.mono (fun _ _ under => under)
        (fun _ _ produced => produced.mono id (List.Subset.refl _) (List.subset_append_left ..))
    have ended := noted.complete found fun input under => by
      have same : url = input := under.1
      subst same
      exact gives under
    exact ended.mono (fun _ _ under => under.mono (List.Subset.refl _)) fun _ _ produced => produced
  answers := by
    change (s.answers ++ answers).Perm ((s.buffer.finished ++ [(i, outcome)]).filterMap _)
    rw [List.filterMap_append, filterMap_one, logged]
    exact sound.answers.append_right _
  requests := by
    have erased := Buffer.perm_eraseIdx found
    change s.requests.Perm ((s.buffer.running.eraseIdx k).filterMap (pending ctx) ++
      (s.buffer.finished ++ [(i, outcome)]).filterMap fun result => requested ctx result.2)
    rw [List.filterMap_append, filterMap_one, asked]
    refine sound.requests.trans (((erased.filterMap _).append_right _).trans ?_)
    rw [List.filterMap_cons]
    cases pending ctx (i, url, stage) with
    | none =>
        rw [Option.toList_none, List.append_nil]
    | some requested =>
        rw [Option.toList_some, ← List.append_assoc]
        exact (List.perm_append_singleton _ _).symm

/-- A page ends without an answer. -/
theorem Sound.quit (sound : Sound ctx urls s) (found : s.buffer.running[k]? = some (i, url, stage))
    {outcome : Option (υ × PageResult γ)} (silent : answered ctx outcome = none)
    (idle : pending ctx (i, url, stage) = none)
    (gives : Underway ctx s url (url, stage) → Produced ctx s url outcome) :
    Sound ctx urls (s.give k i outcome) := by
  have same : ({ s.give k i outcome with answers := s.answers ++ [] } : ScrapeState υ γ) =
      s.give k i outcome := by
    rw [List.append_nil]
    rfl
  rw [← same]
  apply sound.give found
  · rw [silent]
    rfl
  · rw [requested, silent, idle]
    rfl
  · rw [List.append_nil]
    exact gives

theorem Sound.enter (sound : Sound ctx urls s) (found : s.buffer.running[k]? = some (i, url, stage))
    (before : stage ≠ .fetching) : Sound ctx urls (s.enter ctx k i url) := by
  have idle : pending ctx (i, url, stage) = none := if_neg fun both => before both.1
  rw [ScrapeState.enter]
  cases guard : ctx.guard url with
  | some rejection =>
      have silent : answered ctx (some (url, (.error (.invalidUrl rejection) : PageResult γ))) =
          none := by
        rw [answered, guard]
        rfl
      exact sound.quit found silent idle fun _ => ⟨rfl, .inl ⟨rejection, guard, rfl⟩⟩
  | none =>
      dsimp only
      split
      next ignore => exact sound.fetch found before guard (.inl ignore)
      next obey =>
          exact sound.goOn found before (by simp) fun _ =>
            ⟨rfl, guard, Bool.eq_false_iff.mpr obey⟩

theorem Sound.draw (sound : Sound ctx urls s)
    {buffer : Buffer υ (υ × PageStage) (Option (υ × PageResult γ))}
    (step : s.buffer.draw ctx.concurrency (·, .queued) = some buffer) :
    Sound ctx urls { s with buffer := buffer } := by
  have tracks := sound.tracks.draw (fun url _ => ⟨rfl, trivial⟩) step
  obtain ⟨-, finished, input, running⟩ := Buffer.draw_eq_some step
  refine ⟨?_, ?_, ?_⟩
  · exact tracks.mono (fun _ _ under => under.mono (List.Subset.refl _))
      fun _ _ produced => produced.mono id (List.Subset.refl _) (List.Subset.refl _)
  · change s.answers.Perm (buffer.finished.filterMap _)
    rw [finished]
    exact sound.answers
  · change s.requests.Perm (buffer.running.filterMap _ ++ buffer.finished.filterMap _)
    have idle : pending ctx (s.buffer.next, input, .queued) = none :=
      if_neg fun both => by cases both.1
    rw [finished, running, List.filterMap_append, filterMap_one, idle, Option.toList_none,
      List.append_nil]
    exact sound.requests

theorem Sound.step {a : ScrapeAction γ} (sound : Sound ctx urls s)
    (step : scrapeStep ctx s a = some t) : Sound ctx urls t := by
  have idle {i : Nat} {url : υ} {stage : PageStage} (before : stage ≠ .fetching) :
      pending ctx (i, url, stage) = none := if_neg fun both => before both.1
  cases moves_of_step step with
  | draw admitted => exact sound.draw admitted
  | skip found cancelled => exact sound.quit found rfl (idle (by simp)) fun _ => cancelled
  | throttle found live limited =>
      exact sound.goOn found (by simp) (by simp) fun _ => ⟨rfl, limited⟩
  | poll found live => exact sound.enter found (by simp)
  | permit found => exact sound.enter found (by simp)
  | abandon found cancelled => exact sound.quit found rfl (idle (by simp)) fun _ => cancelled
  | @letThrough k i url found =>
      have noted := sound.note [(url, true)]
      obtain ⟨-, passed, obeyed⟩ := sound.underway found
      refine noted.fetch found (by simp) passed (.inr ?_)
      exact List.mem_append_right _ (List.mem_singleton_self _)
  | @turnAway k i url found =>
      have noted := sound.note [(url, false)]
      obtain ⟨-, passed, obeyed⟩ := sound.underway found
      refine noted.quit found rfl (idle (by simp)) fun _ => ⟨rfl, passed, obeyed, ?_⟩
      exact List.mem_append_right _ (List.mem_singleton_self _)
  | @answer k i url outcome found =>
      obtain ⟨-, passed, allowed⟩ := sound.underway found
      have logged : answered ctx (some (url, outcome.map some)) = some (url, outcome) := by
        cases outcome with
        | error e =>
            change (if (ctx.guard url).isNone then _ else _) = _
            rw [passed]
            rfl
        | ok content => rfl
      apply sound.give found
      · rw [logged]
        rfl
      · rw [requested, logged]
        cases captured : ctx.captured url <;> simp [pending, captured]
      · intro _
        cases outcome with
        | error e => exact ⟨rfl, .inr ⟨passed, allowed, by simp⟩⟩
        | ok content => exact ⟨rfl, passed, allowed, by simp⟩
  | cancel =>
      refine ⟨?_, sound.answers, sound.requests⟩
      exact sound.tracks.mono (fun _ _ under => under.mono (List.Subset.refl _))
        fun _ _ produced => produced.mono (fun _ => rfl) (List.Subset.refl _) (List.Subset.refl _)

theorem sound_of_execute {actions : List (ScrapeAction γ)}
    (run : execute (scrapeStep ctx) (.init ctx urls) actions = some t) :
    Sound ctx (applyMaxPagesLimit urls ctx.maxPages) t :=
  execute_invariant (fun _ _ _ sound step => sound.step step) run (sound_init ctx urls)

end Sound

end Webfang.ScrapeRun
