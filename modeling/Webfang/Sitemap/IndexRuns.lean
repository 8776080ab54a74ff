import Webfang.Sitemap.IndexRecursion

/-!
# Runs of the recursion

The calls stay a tree, in which every child comes behind its parent and has one level less to go.
So every run is at most as long as the work that the first call can come to, and until that call
returns some call can go on.
-/

set_option linter.unusedSectionVars false

namespace Webfang

namespace Sitemap

open StepSystem Parties

/-! ## The tree in a run -/

section Runs

variable {υ τ : Type} [LinearOrder υ] [LinearOrder τ] {parser : SitemapParser υ τ} {root : υ}
  {s t : Recursion υ τ} {i j : Nat} {call moved other : SitemapCall υ τ}
  {new : List (SitemapCall υ τ)}

/-- The calls are a tree, whose root is the first. -/
structure Recursion.Shaped (parser : SitemapParser υ τ) (root : υ) (s : Recursion υ τ) : Prop where
  first : ∃ call, s.calls[0]? = some call ∧ call.url = root ∧
    call.depth = parser.config.maxDepth ∧ call.parent = none
  tree : ∀ (j : Nat) (call : SitemapCall υ τ), s.calls[j]? = some call → 0 < j →
    ∃ p parent, p < j ∧ s.calls[p]? = some parent ∧ call.parent = some p ∧ j ∈ parent.children ∧
      call.url ∈ childUrls parser parent.url
  shape : ∀ (j : Nat) (call : SitemapCall υ τ), s.calls[j]? = some call → Shape parser s j call
  asked : ∀ entry ∈ s.fetched, ∃ (j : Nat) (call : SitemapCall υ τ), s.calls[j]? = some call ∧
    entry = (call.url, call.depth) ∧ Asked parser s j call

theorem shaped_start (root : υ) : (Recursion.start parser root).Shaped parser root where
  first := ⟨_, rfl, rfl, rfl, rfl⟩
  tree := by
    intro j call found later
    cases j with
    | zero => exact absurd later (Nat.lt_irrefl 0)
    | succ j => cases found
  shape := by
    intro j call found
    cases j with
    | zero =>
        cases found
        exact rfl
    | succ j => cases found
  asked := fun _ mem => absurd mem List.not_mem_nil

/-- A child stays a child. -/
theorem Recursion.Evolves.child (evolves : s.Evolves t) {p : Nat} {parent : SitemapCall υ τ}
    (found : s.calls[p]? = some parent) (child : j ∈ parent.children) :
    ∃ parent' : SitemapCall υ τ, t.calls[p]? = some parent' ∧ parent'.url = parent.url ∧
      j ∈ parent'.children := by
  obtain ⟨parent', found', same⟩ := evolves.calls p parent found
  refine ⟨parent', found', same.url, ?_⟩
  rw [same.children (List.ne_nil_of_mem child)]
  exact child

theorem Moved.shaped (shaped : s.Shaped parser root)
    (moves : Moved parser s t i call moved new) : t.Shaped parser root where
  first := by
    obtain ⟨first, found, url, depth, parent⟩ := shaped.first
    obtain ⟨first', found', same⟩ := moves.evolves.calls 0 first found
    exact ⟨first', found', same.url.trans url, same.depth.trans depth, same.parent.trans parent⟩
  tree := by
    -- what is known of a call that was there before the step
    have before : ∀ (j : Nat) (other : SitemapCall υ τ), s.calls[j]? = some other → 0 < j →
        ∃ p parent, p < j ∧ t.calls[p]? = some parent ∧ other.parent = some p ∧
          j ∈ parent.children ∧ other.url ∈ childUrls parser parent.url := by
      intro j other there later
      obtain ⟨p, parent, less, found, origin, child, named⟩ := shaped.tree j other there later
      obtain ⟨parent', found', url, child'⟩ := moves.evolves.child found child
      rw [← url] at named
      exact ⟨p, parent', less, found', origin, child', named⟩
    intro j other there later
    rcases moves.call_cases there with ⟨place, same⟩ | ⟨_, there'⟩ | ⟨k, place, there'⟩
    · rw [same, moves.parent, moves.url, place]
      exact before i call moves.found (place ▸ later)
    · exact before j other there' later
    · obtain ⟨named, _, _, parent, child⟩ := moves.named k other there'
      have inside : i < s.calls.length := (List.getElem?_eq_some_iff.mp moves.found).1
      rw [← moves.url] at named
      exact ⟨i, moved, by omega, moves.here, parent, place ▸ child, named⟩
  shape := by
    intro j other there
    rcases moves.call_cases there with ⟨place, same⟩ | ⟨_, there'⟩ | ⟨k, _, there'⟩
    · rw [place, same]
      exact moves.shape
    · exact (shaped.shape j other there').mono moves.evolves
    · obtain ⟨_, waiting, childless, _⟩ := moves.named k other there'
      rw [Shape, waiting]
      exact childless
  asked := by
    intro entry mem
    rcases moves.requested entry mem with earlier | ⟨same, fetching⟩
    · obtain ⟨j, other, there, pair, asked⟩ := shaped.asked entry earlier
      by_cases place : i = j
      · rw [← place, moves.found, Option.some.injEq] at there
        rw [← there] at pair asked
        refine ⟨i, moved, moves.here, ?_, moves.asked (place ▸ asked)⟩
        rw [pair, moves.url, moves.depth]
      · exact ⟨j, other, moves.there place there, pair, asked.mono moves.evolves⟩
    · refine ⟨i, moved, moves.here, ?_, ?_⟩
      · rw [same, moves.url, moves.depth]
      · rw [Asked, fetching]
        exact True.intro

/-- What a step is, in a tree. -/
theorem Recursion.Shaped.moves (shaped : s.Shaped parser root) (step : s.step parser i = some t) :
    ∃ call moved new, Resumed parser s i call t ∧ Moved parser s t i call moved new := by
  obtain ⟨call, found, resumed⟩ := step_eq_some step
  obtain ⟨moved, new, moves⟩ := moved_of_resumed found (shaped.shape i call found) resumed
  exact ⟨call, moved, new, resumed, moves⟩

theorem shaped_step (shaped : s.Shaped parser root) (step : s.step parser i = some t) :
    t.Shaped parser root := by
  obtain ⟨call, moved, new, _, moves⟩ := shaped.moves step
  exact moves.shaped shaped

end Runs

/-! ## Termination -/

section Termination

variable {υ τ : Type} [LinearOrder υ] [LinearOrder τ] (parser : SitemapParser υ τ)

/-- The steps of all calls for what a document names, at most. -/
def load : Nat → υ → Nat
  | 0, _ => 0
  | depth + 1, u => ((childUrls parser u).map fun c => 4 + load depth c).sum

/-- The steps that a call and those behind it still have. -/
def SitemapCall.work (call : SitemapCall υ τ) : Nat :=
  match call.stage with
  | .waiting => 4 + load parser call.depth call.url
  | .fetching => 3 + load parser call.depth call.url
  | .reading => 2 + load parser call.depth call.url
  | .joining => 1
  | .finished _ => 0

def Recursion.work (s : Recursion υ τ) : Nat := (s.calls.map (SitemapCall.work parser)).sum

variable {parser} {root : υ} {s t : Recursion υ τ} {i : Nat} {call : SitemapCall υ τ}

/-- The call has less to do in its next stage. -/
theorem work_moveTo_lt (found : s.calls[i]? = some call) (stage : CallStage υ τ)
    (less : SitemapCall.work parser { call with stage } < call.work parser) :
    (s.moveTo i call stage).work parser < s.work parser := by
  have sum := sum_set (SitemapCall.work parser) found { call with stage }
  change ((s.calls.set i { call with stage }).map (SitemapCall.work parser)).sum <
    (s.calls.map (SitemapCall.work parser)).sum
  omega

/-- What the index had to do is left to the new calls. -/
theorem work_fork_lt (found : s.calls[i]? = some call) (reading : call.stage = .reading)
    (depth : 0 < call.depth) {urls : List (SitemapUrl υ τ)}
    (answer : parser.answer call.url = .parsed urls true) :
    (s.fork i call urls).work parser < s.work parser := by
  obtain ⟨d, deep⟩ := Nat.exists_eq_succ_of_ne_zero depth.ne'
  have new : (urls.map fun e =>
      SitemapCall.work parser ⟨e.url, call.depth - 1, some i, [], .waiting⟩).sum =
        load parser call.depth call.url := by
    rw [deep, load, childUrls_of_index answer, List.map_map]
    rfl
  have before : call.work parser = 2 + load parser call.depth call.url := by
    rw [SitemapCall.work, reading]
  have sum := sum_set (SitemapCall.work parser) found
    { call with children := List.range' s.calls.length urls.length, stage := .joining }
  have after : SitemapCall.work parser
      { call with children := List.range' s.calls.length urls.length, stage := .joining } = 1 := rfl
  change ((s.calls.set i _ ++ urls.map _).map (SitemapCall.work parser)).sum <
    (s.calls.map (SitemapCall.work parser)).sum
  rw [List.map_append, List.sum_append, List.map_map]
  change _ + (urls.map fun e =>
      SitemapCall.work parser ⟨e.url, call.depth - 1, some i, [], .waiting⟩).sum < _
  omega

theorem work_step_lt (shaped : s.Shaped parser root) (step : s.step parser i = some t) :
    t.work parser < s.work parser := by
  obtain ⟨call, found, resumed⟩ := step_eq_some step
  have here := shaped.shape i call found
  cases resumed with
  | tooDeep waiting may depth | skipped waiting may depth visited =>
      refine work_moveTo_lt found _ ?_
      simp only [SitemapCall.work, waiting]
      omega
  | requested waiting may depth fresh =>
      refine work_moveTo_lt found .fetching ?_
      simp only [SitemapCall.work, waiting]
      omega
  | arrived fetching =>
      refine work_moveTo_lt found .reading ?_
      simp only [SitemapCall.work, fetching]
      omega
  | failed e busy answer =>
      refine work_moveTo_lt found _ ?_
      rcases busy with stage | stage
      · simp only [SitemapCall.work, stage]
        omega
      · simp only [SitemapCall.work, stage]
        omega
  | unreadable e reading answer | leaf urls reading answer =>
      refine work_moveTo_lt found _ ?_
      simp only [SitemapCall.work, reading]
      omega
  | forked urls reading answer =>
      rw [Shape, reading] at here
      exact work_fork_lt found reading here.2 answer
  | joined joining all =>
      refine work_moveTo_lt found _ ?_
      simp only [SitemapCall.work, joining]
      omega

theorem run_length_le {run : List Nat} (executes : parseFromUrl parser root run = some t) :
    run.length ≤ 4 + load parser parser.config.maxDepth root := by
  have preserved : ∀ (s : Recursion υ τ) (i : Nat) (t : Recursion υ τ), s.Shaped parser root →
      s.step parser i = some t → t.Shaped parser root := fun _ _ _ => shaped_step
  have decreases : ∀ (s : Recursion υ τ) (i : Nat) (t : Recursion υ τ), s.Shaped parser root →
      s.step parser i = some t → t.work parser < s.work parser := fun _ _ _ => work_step_lt
  have bound := length_add_measure_le preserved decreases executes (shaped_start root)
  have start : (Recursion.start parser root).work parser =
      4 + load parser parser.config.maxDepth root := rfl
  omega

end Termination

/-! ## Progress -/

section Progress

variable {υ τ : Type} [LinearOrder υ] [LinearOrder τ] {parser : SitemapParser υ τ} {root : υ}
  {s : Recursion υ τ} {i : Nat} {call : SitemapCall υ τ}

theorem resultAt_of_result {r : ParseResult υ τ} (found : s.calls[i]? = some call)
    (finished : call.stage = .finished r) : s.resultAt i = some (call.url, r) := by
  rw [Recursion.resultAt, found, Option.bind_some, SitemapCall.result?, finished]
  rfl

theorem isFinished_iff (found : s.calls[i]? = some call) :
    s.isFinished i ↔ ∃ r, call.stage = .finished r := by
  constructor
  · intro finished
    obtain ⟨r, result⟩ := Option.isSome_iff_exists.mp finished
    rw [Recursion.resultAt, found, Option.bind_some] at result
    obtain ⟨known, there, _⟩ := Option.map_eq_some_iff.mp result
    unfold SitemapCall.result? at there
    split at there
    · rename_i stage
      exact ⟨_, stage⟩
    · cases there
  · rintro ⟨r, stage⟩
    rw [Recursion.isFinished, resultAt_of_result found stage]
    rfl

/-- The first that is not yet finished stands behind those whose results are taken. -/
theorem exists_first_unfinished {p : Nat → Bool} {places : List Nat} (open_ : ¬ places.all p) :
    ∃ c ∈ places, p c = false ∧ places.idxOf c = (places.takeWhile p).length := by
  induction places with
  | nil => exact absurd rfl open_
  | cons a places ih =>
      cases here : p a with
      | false =>
          refine ⟨a, List.mem_cons_self, here, ?_⟩
          rw [List.idxOf_cons_self, List.takeWhile_cons_of_neg (by rw [here]; exact nofun)]
          rfl
      | true =>
          rw [List.all_cons, here, Bool.true_and] at open_
          obtain ⟨c, mem, unfinished, place⟩ := ih open_
          have other : a ≠ c := by
            intro same
            rw [same, unfinished] at here
            cases here
          refine ⟨c, List.mem_cons_of_mem _ mem, unfinished, ?_⟩
          rw [List.idxOf_cons_ne _ other, List.takeWhile_cons_of_pos here, place]
          rfl

/-- A call whose turn has come goes on, unless it joins children that are still under way. -/
theorem resume_isSome (unfinished : call.result? = none) (may : s.mayStart parser i call)
    (joins : call.stage = .joining → call.children.all s.isFinished) :
    ∃ t, s.resume parser i call = some t := by
  unfold Recursion.resume
  cases stage : call.stage with
  | waiting =>
      dsimp only
      rw [if_neg (not_not_intro may)]
      by_cases depth : call.depth = 0
      · exact ⟨_, if_pos depth⟩
      · rw [if_neg depth]
        by_cases visited : s.visited.contains call.url
        · exact ⟨_, if_pos visited⟩
        · exact ⟨_, if_neg visited⟩
  | fetching => cases parser.answer call.url <;> exact ⟨_, rfl⟩
  | reading =>
      cases parser.answer call.url with
      | failed e | unreadable e => exact ⟨_, rfl⟩
      | parsed urls isIndex => cases isIndex <;> exact ⟨_, rfl⟩
  | joining =>
      dsimp only
      rw [Recursion.results, if_pos (joins stage)]
      exact ⟨_, rfl⟩
  | finished r =>
      rw [SitemapCall.result?, stage] at unfinished
      cases unfinished

/-- Behind an unfinished call whose turn has come one can go on; by induction on the calls behind
it, since children come behind their parents. -/
theorem goes_on (shaped : s.Shaped parser root) (concurrent : 0 < parser.config.concurrency)
    {n : Nat} (left : s.calls.length - i ≤ n) (found : s.calls[i]? = some call)
    (unfinished : call.result? = none) (may : s.mayStart parser i call) :
    ∃ j t, s.step parser j = some t := by
  induction n generalizing i call with
  | zero =>
      have inside : i < s.calls.length := (List.getElem?_eq_some_iff.mp found).1
      omega
  | succ n ih =>
      by_cases joins : call.stage = .joining → call.children.all s.isFinished
      · obtain ⟨t, next⟩ := resume_isSome unfinished may joins
        exact ⟨i, t, by rw [Recursion.step, found, Option.bind_some, next]⟩
      · obtain ⟨joining, open_⟩ := Classical.not_imp.mp joins
        have forked := shaped.shape i call found
        rw [Shape, joining] at forked
        obtain ⟨c, mem, waiting, place⟩ := exists_first_unfinished open_
        obtain ⟨later, child, there, _, _, parent⟩ := forked.child c mem
        have child_unfinished : child.result? = none := by
          unfold SitemapCall.result?
          split
          · rename_i r stage
            rw [(isFinished_iff there).mpr ⟨r, stage⟩] at waiting
            cases waiting
          · rfl
        refine ih (by omega) there child_unfinished ?_
        rw [Recursion.mayStart, parent]
        simp only [found, Option.any_some, decide_eq_true_eq]
        omega

/-- The children of an index can be polled, or there is nothing to poll. -/
def Concurrent (parser : SitemapParser υ τ) (root : υ) : Prop :=
  0 < parser.config.concurrency ∨ childUrls parser root = [] ∨ parser.config.maxDepth = 0

theorem unreturned_goes_on (shaped : s.Shaped parser root) (concurrent : Concurrent parser root)
    (unreturned : s.returned = none) : ∃ j t, s.step parser j = some t := by
  obtain ⟨first, found, url, depth, parent⟩ := shaped.first
  have unfinished : first.result? = none := by
    unfold SitemapCall.result?
    split
    · rename_i r stage
      rw [Recursion.returned, resultAt_of_result found stage] at unreturned
      cases unreturned
    · rfl
  have may : s.mayStart parser 0 first := by rw [Recursion.mayStart, parent]
  rcases concurrent with some_ | none_
  · exact goes_on shaped some_ (Nat.le_refl _) found unfinished may
  · have joins : first.stage = .joining → first.children.all s.isFinished := by
      intro joining
      have forked := shaped.shape 0 first found
      rw [Shape, joining] at forked
      refine List.all_eq_true.mpr fun c mem => ?_
      obtain ⟨_, child, _, named, deep, _⟩ := forked.child c mem
      rcases none_ with leaf | shallow
      · rw [url, leaf] at named
        exact absurd named List.not_mem_nil
      · rw [depth, shallow] at deep
        cases deep
    obtain ⟨t, next⟩ := resume_isSome unfinished may joins
    exact ⟨0, t, by rw [Recursion.step, found, Option.bind_some, next]⟩

/-- The index is read, and none of its children can be polled. -/
def stalledAt (parser : SitemapParser υ τ) (root : υ) (urls : List (SitemapUrl υ τ)) :
    Recursion υ τ :=
  ⟨⟨root, parser.config.maxDepth, none, List.range' 1 urls.length, .joining⟩ ::
      urls.map fun e => ⟨e.url, parser.config.maxDepth - 1, some 0, [], .waiting⟩,
    [root], [(root, parser.config.maxDepth)]⟩

theorem stalledAt_reached {urls : List (SitemapUrl υ τ)}
    (index : parser.answer root = .parsed urls true) (deep : parser.config.maxDepth ≠ 0) :
    parseFromUrl parser root [0, 0, 0] = some (stalledAt parser root urls) := by
  have asked : (Recursion.start parser root).step parser 0 =
      some ⟨[⟨root, parser.config.maxDepth, none, [], .fetching⟩], [],
        [(root, parser.config.maxDepth)]⟩ := if_neg deep
  have arrived : Recursion.step parser ⟨[⟨root, parser.config.maxDepth, none, [], .fetching⟩], [],
      [(root, parser.config.maxDepth)]⟩ 0 =
      some ⟨[⟨root, parser.config.maxDepth, none, [], .reading⟩], [root],
        [(root, parser.config.maxDepth)]⟩ := by
    rw [Recursion.step, List.getElem?_cons_zero, Option.bind_some, Recursion.resume]
    simp only [index]
    rfl
  have forked : Recursion.step parser ⟨[⟨root, parser.config.maxDepth, none, [], .reading⟩],
      [root], [(root, parser.config.maxDepth)]⟩ 0 = some (stalledAt parser root urls) := by
    rw [Recursion.step, List.getElem?_cons_zero, Option.bind_some, Recursion.resume]
    simp only [index]
    rfl
  rw [parseFromUrl, execute_cons, asked, Option.bind_some, execute_cons, arrived, Option.bind_some,
    execute_cons, forked]
  rfl

theorem stalledAt_unfinished (urls : List (SitemapUrl υ τ)) (j : Nat) :
    (stalledAt parser root urls).isFinished j = false := by
  cases j with
  | zero => rfl
  | succ j =>
      unfold Recursion.isFinished Recursion.resultAt stalledAt
      rw [List.getElem?_cons_succ, List.getElem?_map]
      cases urls[j]? <;> rfl

theorem stalledAt_stands (idle : parser.config.concurrency = 0) {urls : List (SitemapUrl υ τ)}
    (named : urls ≠ []) (i : Nat) : (stalledAt parser root urls).step parser i = none := by
  cases i with
  | zero =>
      have open_ : ¬ (List.range' 1 urls.length).all (stalledAt parser root urls).isFinished := by
        intro all
        have first : 1 ∈ List.range' 1 urls.length :=
          List.mem_range'_1.mpr ⟨Nat.le_refl 1, by have := List.length_pos_iff.mpr named; omega⟩
        have finished := List.all_eq_true.mp all 1 first
        rw [stalledAt_unfinished] at finished
        cases finished
      change Option.map _ (if (List.range' 1 urls.length).all _ then _ else none) = none
      rw [if_neg open_]
      rfl
  | succ j =>
      unfold Recursion.step
      rw [show (stalledAt parser root urls).calls[j + 1]? = urls[j]?.map fun e =>
        ⟨e.url, parser.config.maxDepth - 1, some 0, [], .waiting⟩ from by
          rw [stalledAt, List.getElem?_cons_succ, List.getElem?_map]]
      cases urls[j]? with
      | none => rfl
      | some e =>
          have taken : (List.range' 1 urls.length).takeWhile
              (stalledAt parser root urls).isFinished = [] := by
            cases List.range' 1 urls.length with
            | nil => rfl
            | cons a places =>
                rw [List.takeWhile_cons_of_neg (by rw [stalledAt_unfinished]; exact nofun)]
          have turned : (stalledAt parser root urls).mayStart parser (j + 1)
              ⟨e.url, parser.config.maxDepth - 1, some 0, [], .waiting⟩ = false := by
            change decide (_ < ((List.range' 1 urls.length).takeWhile _).length + _) = false
            rw [taken, idle]
            exact decide_eq_false (Nat.not_lt_zero _)
          change (if ¬ (stalledAt parser root urls).mayStart parser (j + 1) _ then none else _) = _
          rw [turned, if_pos Bool.false_ne_true]

/-- The recursion never stands still before it returns, exactly where the children of the root can
be polled. -/
theorem concurrent_iff : Concurrent parser root ↔ ∀ run t, parseFromUrl parser root run = some t →
    t.returned = none → ∃ i t', t.step parser i = some t' := by
  constructor
  · intro concurrent run t executes unreturned
    have preserved : ∀ (s : Recursion υ τ) (i : Nat) (t : Recursion υ τ), s.Shaped parser root →
        s.step parser i = some t → t.Shaped parser root := fun _ _ _ => shaped_step
    exact unreturned_goes_on (execute_invariant preserved executes (shaped_start root)) concurrent
      unreturned
  · intro on
    by_contra idle
    obtain ⟨none_, named, deep⟩ := not_or.mp idle |>.imp_right not_or.mp
    obtain ⟨urls, index, urls_ne⟩ : ∃ urls, parser.answer root = .parsed urls true ∧ urls ≠ [] := by
      unfold childUrls at named
      split at named
      · rename_i urls answer
        exact ⟨urls, answer, fun empty => named (by rw [empty]; rfl)⟩
      · exact absurd rfl named
    obtain ⟨i, t', step⟩ := on _ _ (stalledAt_reached index deep) rfl
    rw [stalledAt_stands (Nat.eq_zero_of_not_pos none_) urls_ne] at step
    cases step

end Progress

end Sitemap

end Webfang
