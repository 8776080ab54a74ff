import Webfang.Sitemap.SitemapIndex

/-!
# The recursion over sitemap indexes

What the calls of a recursion are to one another, whatever their order: every call but the first is
one for a document that the index of an earlier call names, one level less deep.  So the recursion
ends, and as long as it has not returned some call can go on.
-/

set_option linter.unusedSectionVars false

namespace Webfang

namespace Sitemap

open StepSystem

/-! ## Documents -/

section Documents

variable {υ τ : Type} [LinearOrder υ] [LinearOrder τ] (parser : SitemapParser υ τ)

/-- The documents that an index names. -/
def childUrls (u : υ) : List υ :=
  match parser.answer u with
  | .parsed urls true => urls.map (·.url)
  | _ => []

/-- The entries of a document that is no index, as far as the crawl budget leaves them. -/
def leafEntries (u : υ) : List (SitemapUrl υ τ) :=
  match parser.answer u with
  | .parsed urls false => applyCrawlBudget parser urls
  | _ => []

/-- The document of the leaf is reached from another one by so many steps from index to child. -/
inductive LeafAt : υ → Nat → υ → Prop
  | here {u : υ} (leaf : ∃ urls, parser.answer u = .parsed urls false) : LeafAt u 0 u
  | there {u c leaf : υ} {n : Nat} (named : c ∈ childUrls parser u) (rest : LeafAt c n leaf) :
      LeafAt u (n + 1) leaf

/-- A chain that is short enough for the depth leads to the leaf. -/
def LeafWithin (u : υ) (depth : Nat) (leaf : υ) : Prop := ∃ n < depth, LeafAt parser u n leaf

/-- A set of documents with all that they name, each of which is served: it has entries, or it is
an empty sitemap. -/
structure SitemapGraph (graph : Set υ) : Prop where
  closed : ∀ u ∈ graph, ∀ c ∈ childUrls parser u, c ∈ graph
  served : ∀ u ∈ graph, parser.answer u = .unreadable .noUrlsFound ∨
    ∃ urls isIndex, urls ≠ [] ∧ parser.answer u = .parsed urls isIndex

variable {parser}

theorem not_leafWithin_zero {u leaf : υ} : ¬ LeafWithin parser u 0 leaf :=
  fun ⟨_, less, _⟩ => absurd less (Nat.not_lt_zero _)

theorem LeafWithin.here {u : υ} {depth : Nat} (leaf : ∃ urls, parser.answer u = .parsed urls false)
    (less : 0 < depth) : LeafWithin parser u depth u :=
  ⟨0, less, .here leaf⟩

theorem LeafWithin.there {u c leaf : υ} {depth : Nat} (named : c ∈ childUrls parser u)
    (within : LeafWithin parser c depth leaf) : LeafWithin parser u (depth + 1) leaf := by
  obtain ⟨n, less, chain⟩ := within
  exact ⟨n + 1, Nat.succ_lt_succ less, .there named chain⟩

theorem exists_leaf_of_mem {u : υ} {e : SitemapUrl υ τ} (mem : e ∈ leafEntries parser u) :
    ∃ urls, parser.answer u = .parsed urls false := by
  unfold leafEntries at mem
  split at mem
  · rename_i urls answer
    exact ⟨urls, answer⟩
  · cases mem

/-- A leaf names nothing. -/
theorem childUrls_of_leaf {u : υ} {urls : List (SitemapUrl υ τ)}
    (leaf : parser.answer u = .parsed urls false) : childUrls parser u = [] := by
  rw [childUrls, leaf]

theorem childUrls_of_index {u : υ} {urls : List (SitemapUrl υ τ)}
    (index : parser.answer u = .parsed urls true) : childUrls parser u = urls.map (·.url) := by
  rw [childUrls, index]

/-- The entries of a result; an error has none. -/
def resultEntries (result : ParseResult υ τ) : List (SitemapUrl υ τ) := result.toOption.getD []

end Documents

/-! ## Steps -/

section Steps

variable {υ τ : Type} [LinearOrder υ] [LinearOrder τ] {parser : SitemapParser υ τ}
  {s t : Recursion υ τ} {i : Nat} {call : SitemapCall υ τ}

/-- What a call that goes on does; an error of the server ends it. -/
inductive Resumed (parser : SitemapParser υ τ) (s : Recursion υ τ) (i : Nat)
    (call : SitemapCall υ τ) : Recursion υ τ → Prop
  | tooDeep (waiting : call.stage = .waiting) (may : s.mayStart parser i call)
      (depth : call.depth = 0) :
      Resumed parser s i call (s.moveTo i call (.finished (.error .maxDepthExceeded)))
  | skipped (waiting : call.stage = .waiting) (may : s.mayStart parser i call)
      (depth : call.depth ≠ 0) (visited : call.url ∈ s.visited) :
      Resumed parser s i call (s.moveTo i call (.finished (.error .invalidStructure)))
  | requested (waiting : call.stage = .waiting) (may : s.mayStart parser i call)
      (depth : call.depth ≠ 0) (fresh : call.url ∉ s.visited) :
      Resumed parser s i call
        { s.moveTo i call .fetching with fetched := s.fetched ++ [(call.url, call.depth)] }
  | arrived (fetching : call.stage = .fetching) :
      Resumed parser s i call { s.moveTo i call .reading with visited := call.url :: s.visited }
  | failed (e : SitemapError) (busy : call.stage = .fetching ∨ call.stage = .reading)
      (answer : parser.answer call.url = .failed e) :
      Resumed parser s i call (s.moveTo i call (.finished (.error e)))
  | unreadable (e : SitemapError) (reading : call.stage = .reading)
      (answer : parser.answer call.url = .unreadable e) :
      Resumed parser s i call (s.moveTo i call (.finished (.error e)))
  | leaf (urls : List (SitemapUrl υ τ)) (reading : call.stage = .reading)
      (answer : parser.answer call.url = .parsed urls false) :
      Resumed parser s i call (s.moveTo i call (.finished (.ok (applyCrawlBudget parser urls))))
  | forked (urls : List (SitemapUrl υ τ)) (reading : call.stage = .reading)
      (answer : parser.answer call.url = .parsed urls true) :
      Resumed parser s i call (s.fork i call urls)
  | joined (joining : call.stage = .joining) (all : ∀ c ∈ call.children, s.isFinished c) :
      Resumed parser s i call (s.moveTo i call (.finished (collectChildren parser
        (call.children.filterMap s.resultAt))))

theorem resumed_of_resume (step : s.resume parser i call = some t) :
    Resumed parser s i call t := by
  unfold Recursion.resume at step
  split at step
  · rename_i waiting
    split at step
    · cases step
    · rename_i may
      rw [not_not] at may
      split at step
      · rename_i depth
        cases step
        exact .tooDeep waiting may depth
      · rename_i depth
        split at step
        · rename_i visited
          cases step
          exact .skipped waiting may depth (List.contains_iff_mem.mp visited)
        · rename_i fresh
          cases step
          exact .requested waiting may depth fun mem => fresh (List.contains_iff_mem.mpr mem)
  · rename_i fetching
    split at step
    · rename_i e answer
      cases step
      exact .failed e (.inl fetching) answer
    · cases step
      exact .arrived fetching
  · rename_i reading
    split at step
    · rename_i e answer
      cases step
      exact .failed e (.inr reading) answer
    · rename_i e answer
      cases step
      exact .unreadable e reading answer
    · rename_i urls isIndex answer
      cases isIndex with
      | true =>
          cases step
          exact .forked urls reading answer
      | false =>
          cases step
          exact .leaf urls reading answer
  · rename_i joining
    obtain ⟨results, found, next⟩ := Option.map_eq_some_iff.mp step
    unfold Recursion.results at found
    split at found
    · rename_i all
      cases found
      cases next
      exact .joined joining (List.all_eq_true.mp all)
    · cases found
  · cases step

theorem step_eq_some (step : s.step parser i = some t) :
    ∃ call, s.calls[i]? = some call ∧ Resumed parser s i call t := by
  obtain ⟨call, found, resume⟩ := Option.bind_eq_some_iff.mp step
  exact ⟨call, found, resumed_of_resume resume⟩

/-! ## The tree of calls -/

/-- The children of a call for an index: one for each document that it names. -/
structure Forked (parser : SitemapParser υ τ) (s : Recursion υ τ) (i : Nat)
    (call : SitemapCall υ τ) : Prop where
  index : ∃ urls, parser.answer call.url = .parsed urls true
  child : ∀ c ∈ call.children, i < c ∧ ∃ child, s.calls[c]? = some child ∧
    child.url ∈ childUrls parser call.url ∧ child.depth + 1 = call.depth ∧ child.parent = some i
  named : ∀ u ∈ childUrls parser call.url, ∃ c ∈ call.children, ∃ child,
    s.calls[c]? = some child ∧ child.url = u

/-- The result comes from the document itself, or from the results of the children. -/
inductive Answered (parser : SitemapParser υ τ) (s : Recursion υ τ) (i : Nat)
    (call : SitemapCall υ τ) : ParseResult υ τ → Prop
  | own (r : ParseResult υ τ) (childless : call.children = []) (depth : 0 < call.depth)
      (none_named : childUrls parser call.url = [])
      (entries : resultEntries r = leafEntries parser call.url) : Answered parser s i call r
  | joined (forked : Forked parser s i call) (all : ∀ c ∈ call.children, s.isFinished c) :
      Answered parser s i call (collectChildren parser (call.children.filterMap s.resultAt))

/-- What goes with the stage of a call. -/
def Shape (parser : SitemapParser υ τ) (s : Recursion υ τ) (i : Nat) (call : SitemapCall υ τ) :
    Prop :=
  match call.stage with
  | .waiting => call.children = []
  | .fetching | .reading => call.children = [] ∧ 0 < call.depth
  | .joining => Forked parser s i call
  | .finished r => call.children = [] ∧ resultEntries r = [] ∨ Answered parser s i call r

/-- The document of the call is asked for, and what is found there is not dropped. -/
def Asked (parser : SitemapParser υ τ) (s : Recursion υ τ) (i : Nat) (call : SitemapCall υ τ) :
    Prop :=
  match call.stage with
  | .waiting => False
  | .finished r => Answered parser s i call r
  | _ => True

/-- Where the error that a call ends with comes from. -/
inductive Failure (parser : SitemapParser υ τ) (s : Recursion υ τ) (call : SitemapCall υ τ) :
    SitemapError → Prop
  | tooDeep : Failure parser s call .maxDepthExceeded
  | skipped : Failure parser s call .invalidStructure
  | answered (e : SitemapError)
      (answer : parser.answer call.url = .failed e ∨ parser.answer call.url = .unreadable e) :
      Failure parser s call e
  | collected (e : SitemapError)
      (result : collectChildren parser (call.children.filterMap s.resultAt) = .error e) :
      Failure parser s call e

/-- A step: the call is another, and calls for the documents of an index may be new. -/
structure Moved (parser : SitemapParser υ τ) (s t : Recursion υ τ) (i : Nat)
    (call moved : SitemapCall υ τ) (new : List (SitemapCall υ τ)) : Prop where
  found : s.calls[i]? = some call
  calls : t.calls = s.calls.set i moved ++ new
  unfinished : call.result? = none
  url : moved.url = call.url
  depth : moved.depth = call.depth
  parent : moved.parent = call.parent
  children : call.children ≠ [] → moved.children = call.children
  kept : ∀ entry ∈ s.fetched, entry ∈ t.fetched
  requested : ∀ entry ∈ t.fetched, entry ∈ s.fetched ∨
    entry = (call.url, call.depth) ∧ moved.stage = .fetching
  shape : Shape parser t i moved
  asked : Asked parser s i call → Asked parser t i moved
  failure : ∀ e, moved.stage = .finished (.error e) → Failure parser s call e
  named : ∀ k child, new[k]? = some child → child.url ∈ childUrls parser call.url ∧
    child.stage = .waiting ∧ child.children = [] ∧ child.parent = some i ∧
    s.calls.length + k ∈ moved.children

/-- A later state of a call: the same document at the same depth, and a result stays. -/
structure SitemapCall.Evolves (call call' : SitemapCall υ τ) : Prop where
  url : call'.url = call.url
  depth : call'.depth = call.depth
  parent : call'.parent = call.parent
  result : ∀ r, call.result? = some r → call' = call
  children : call.children ≠ [] → call'.children = call.children

/-- A later state of the recursion. -/
structure Recursion.Evolves (s t : Recursion υ τ) : Prop where
  calls : ∀ (j : Nat) (call : SitemapCall υ τ), s.calls[j]? = some call →
    ∃ call' : SitemapCall υ τ, t.calls[j]? = some call' ∧ call.Evolves call'
  fetched : ∀ entry ∈ s.fetched, entry ∈ t.fetched

theorem SitemapCall.Evolves.refl (call : SitemapCall υ τ) : call.Evolves call :=
  ⟨rfl, rfl, rfl, fun _ _ => rfl, fun _ => rfl⟩

variable {moved : SitemapCall υ τ} {new : List (SitemapCall υ τ)} {j : Nat}
  {other : SitemapCall υ τ}

/-- The call that goes on has no result yet, and no children unless it is joining them. -/
theorem evolves_of_set (found : s.calls[i]? = some call) (unfinished : call.result? = none)
    (url : moved.url = call.url) (depth : moved.depth = call.depth)
    (parent : moved.parent = call.parent)
    (children : call.children ≠ [] → moved.children = call.children)
    (calls : t.calls = s.calls.set i moved ++ new)
    (kept : ∀ entry ∈ s.fetched, entry ∈ t.fetched) : s.Evolves t where
  calls := by
    intro j other there
    have bound : j < s.calls.length := (List.getElem?_eq_some_iff.mp there).1
    have bound' : j < (s.calls.set i moved).length := by rw [List.length_set]; exact bound
    rw [calls, List.getElem?_append_left bound']
    by_cases same : i = j
    · rw [← same] at there bound ⊢
      rw [found, Option.some.injEq] at there
      rw [List.getElem?_set_self bound, ← there]
      refine ⟨moved, rfl, url, depth, parent, ?_, children⟩
      intro r result
      rw [unfinished] at result
      cases result
    · rw [List.getElem?_set_ne same]
      exact ⟨other, there, .refl other⟩
  fetched := kept

theorem Moved.evolves (moves : Moved parser s t i call moved new) : s.Evolves t :=
  evolves_of_set moves.found moves.unfinished moves.url moves.depth moves.parent moves.children
    moves.calls moves.kept

/-- A call behind a step is the one that went on, one of the others, or a new one. -/
theorem Moved.call_cases (moves : Moved parser s t i call moved new)
    (there : t.calls[j]? = some other) :
    j = i ∧ other = moved ∨ j ≠ i ∧ s.calls[j]? = some other ∨
      ∃ k, j = s.calls.length + k ∧ new[k]? = some other := by
  have size : (s.calls.set i moved).length = s.calls.length := List.length_set ..
  rw [moves.calls] at there
  by_cases before : j < s.calls.length
  · rw [List.getElem?_append_left (by rw [size]; exact before)] at there
    by_cases same : i = j
    · rw [← same, List.getElem?_set_self (same ▸ before), Option.some.injEq] at there
      exact .inl ⟨same.symm, there.symm⟩
    · rw [List.getElem?_set_ne same] at there
      exact .inr (.inl ⟨fun same' => same same'.symm, there⟩)
  · rw [List.getElem?_append_right (by rw [size]; omega), size] at there
    exact .inr (.inr ⟨j - s.calls.length, by omega, there⟩)

theorem Moved.here (moves : Moved parser s t i call moved new) : t.calls[i]? = some moved := by
  have inside : i < s.calls.length := (List.getElem?_eq_some_iff.mp moves.found).1
  rw [moves.calls, List.getElem?_append_left (by rw [List.length_set]; exact inside),
    List.getElem?_set_self inside]

theorem Moved.there (moves : Moved parser s t i call moved new) (place : i ≠ j)
    (found : s.calls[j]? = some other) : t.calls[j]? = some other := by
  have inside : j < s.calls.length := (List.getElem?_eq_some_iff.mp found).1
  rw [moves.calls, List.getElem?_append_left (by rw [List.length_set]; exact inside),
    List.getElem?_set_ne place]
  exact found

theorem Recursion.Evolves.resultAt (evolves : s.Evolves t) {r : υ × ParseResult υ τ}
    (result : s.resultAt j = some r) : t.resultAt j = some r := by
  obtain ⟨other, found, pair⟩ := Option.bind_eq_some_iff.mp result
  obtain ⟨known, there, same⟩ := Option.map_eq_some_iff.mp pair
  obtain ⟨other', found', later⟩ := evolves.calls j other found
  rw [Recursion.resultAt, found', later.result known there, Option.bind_some, there,
    Option.map_some, same]

theorem Recursion.Evolves.isFinished (evolves : s.Evolves t) (finished : s.isFinished j) :
    t.isFinished j := by
  obtain ⟨r, result⟩ := Option.isSome_iff_exists.mp finished
  rw [Recursion.isFinished, evolves.resultAt result]
  rfl

theorem Forked.mono (forked : Forked parser s i call) (evolves : s.Evolves t) :
    Forked parser t i call where
  index := forked.index
  child := by
    intro c mem
    obtain ⟨later, child, found, url, depth, parent⟩ := forked.child c mem
    obtain ⟨child', found', same⟩ := evolves.calls c child found
    rw [← same.url] at url
    rw [← same.depth] at depth
    rw [← same.parent] at parent
    exact ⟨later, child', found', url, depth, parent⟩
  named := by
    intro u mem
    obtain ⟨c, known, child, found, url⟩ := forked.named u mem
    obtain ⟨child', found', same⟩ := evolves.calls c child found
    exact ⟨c, known, child', found', same.url.trans url⟩

/-- The results that are there stay as they are. -/
theorem Recursion.Evolves.filterMap_resultAt (evolves : s.Evolves t) {children : List Nat}
    (all : ∀ c ∈ children, s.isFinished c) :
    children.filterMap t.resultAt = children.filterMap s.resultAt := by
  refine List.filterMap_congr fun c mem => ?_
  obtain ⟨r, result⟩ := Option.isSome_iff_exists.mp (all c mem)
  rw [result, evolves.resultAt result]

theorem Answered.mono {r : ParseResult υ τ} (answered : Answered parser s i call r)
    (evolves : s.Evolves t) : Answered parser t i call r := by
  cases answered with
  | own _ childless depth none_named entries => exact .own r childless depth none_named entries
  | joined forked all =>
      rw [← evolves.filterMap_resultAt all]
      exact .joined (forked.mono evolves) fun c mem => evolves.isFinished (all c mem)

theorem Shape.mono (shape : Shape parser s i call) (evolves : s.Evolves t) :
    Shape parser t i call := by
  unfold Shape at shape ⊢
  split <;> rename_i stage <;> rw [stage] at shape
  · exact shape
  · exact shape
  · exact shape
  · exact Forked.mono shape evolves
  · exact shape.imp_right fun answered => answered.mono evolves

theorem Asked.mono (asked : Asked parser s i call) (evolves : s.Evolves t) :
    Asked parser t i call := by
  unfold Asked at asked ⊢
  split
  · rename_i stage
    rw [stage] at asked
    exact asked
  · rename_i stage
    rw [stage] at asked
    exact Answered.mono asked evolves
  · trivial

/-! ## What a step does -/

theorem Forked.moveTo (forked : Forked parser s i call) (stage : CallStage υ τ) :
    Forked parser s i { call with stage } :=
  ⟨forked.index, forked.child, forked.named⟩

theorem Answered.moveTo {r : ParseResult υ τ} (answered : Answered parser s i call r)
    (stage : CallStage υ τ) : Answered parser s i { call with stage } r := by
  cases answered with
  | own _ childless depth none_named entries => exact .own r childless depth none_named entries
  | joined forked all => exact .joined (forked.moveTo stage) all

/-- Only the stage of one call changes, and it is no request. -/
theorem moved_of_stage (found : s.calls[i]? = some call) (unfinished : call.result? = none)
    (stage : CallStage υ τ) (calls : t.calls = s.calls.set i { call with stage })
    (fetched : t.fetched = s.fetched)
    (shape : s.Evolves t → Shape parser t i { call with stage })
    (asked : s.Evolves t → Asked parser s i call → Asked parser t i { call with stage })
    (failure : ∀ e, stage = .finished (.error e) → Failure parser s call e) :
    Moved parser s t i call { call with stage } [] := by
  have calls' : t.calls = s.calls.set i { call with stage } ++ [] := by
    rw [calls, List.append_nil]
  have kept : ∀ entry ∈ s.fetched, entry ∈ t.fetched := by
    intro entry mem
    rw [fetched]
    exact mem
  have evolves : s.Evolves t := by
    refine evolves_of_set found unfinished ?_ ?_ ?_ ?_ calls' kept
    · rfl
    · rfl
    · rfl
    · exact fun _ => rfl
  exact {
    found, unfinished
    calls := calls'
    url := rfl
    depth := rfl
    parent := rfl
    children := fun _ => rfl
    kept := kept
    requested := by
      intro entry mem
      rw [fetched] at mem
      exact .inl mem
    shape := shape evolves
    asked := asked evolves
    failure := failure
    named := by
      intro k child there
      cases there }

/-- A call that ends before a request, with an error. -/
theorem moved_of_refused (found : s.calls[i]? = some call) (waiting : call.stage = .waiting)
    (here : Shape parser s i call) {e : SitemapError}
    (failure : ∀ e', CallStage.finished (.error e : ParseResult υ τ) = .finished (.error e') →
      Failure parser s call e') :
    Moved parser s (s.moveTo i call (.finished (.error e))) i call
      { call with stage := .finished (.error e) } [] := by
  have childless : call.children = [] := by
    unfold Shape at here
    rw [waiting] at here
    exact here
  have unfinished : call.result? = none := by rw [SitemapCall.result?, waiting]
  refine moved_of_stage found unfinished _ rfl rfl (fun _ => .inl ⟨childless, rfl⟩) ?_ failure
  intro _ asked
  rw [Asked, waiting] at asked
  exact asked.elim

/-- A call that ends with an answer of its own. -/
theorem moved_of_own (found : s.calls[i]? = some call) (busy : call.stage = .reading ∨
    call.stage = .fetching) (here : Shape parser s i call) {r : ParseResult υ τ}
    (none_named : childUrls parser call.url = [])
    (entries : resultEntries r = leafEntries parser call.url)
    (failure : ∀ e, r = .error e → Failure parser s call e) :
    Moved parser s (s.moveTo i call (.finished r)) i call { call with stage := .finished r } [] := by
  have start : call.children = [] ∧ 0 < call.depth := by
    unfold Shape at here
    rcases busy with stage | stage
    · rw [stage] at here
      exact here
    · rw [stage] at here
      exact here
  have unfinished : call.result? = none := by
    unfold SitemapCall.result?
    rcases busy with stage | stage
    · rw [stage]
    · rw [stage]
  have answered : Answered parser (s.moveTo i call (.finished r)) i
      { call with stage := .finished r } r := .own r start.1 start.2 none_named entries
  refine moved_of_stage found unfinished _ rfl rfl (fun _ => .inr answered) (fun _ _ => answered) ?_
  intro e failed
  injection failed with failed
  exact failure e failed

/-- The calls for the documents of an index. -/
theorem moved_of_fork (found : s.calls[i]? = some call) (reading : call.stage = .reading)
    (here : Shape parser s i call) {urls : List (SitemapUrl υ τ)}
    (answer : parser.answer call.url = .parsed urls true) :
    ∃ moved new, Moved parser s (s.fork i call urls) i call moved new := by
  have start : call.children = [] ∧ 0 < call.depth := by
    unfold Shape at here
    rw [reading] at here
    exact here
  have inside : i < s.calls.length := (List.getElem?_eq_some_iff.mp found).1
  have names : childUrls parser call.url = urls.map (·.url) := childUrls_of_index answer
  have child_at : ∀ k < urls.length, ∀ e, urls[k]? = some e →
      (s.fork i call urls).calls[s.calls.length + k]? =
        some ⟨e.url, call.depth - 1, some i, [], .waiting⟩ := by
    intro k less e there
    rw [Recursion.fork, List.getElem?_append_right (by rw [List.length_set]; omega),
      List.length_set, Nat.add_sub_cancel_left, List.getElem?_map, there, Option.map_some]
  refine ⟨_, _, {
    found
    calls := rfl
    unfinished := by rw [SitemapCall.result?, reading]
    url := rfl
    depth := rfl
    parent := rfl
    children := fun some_child => absurd start.1 some_child
    kept := fun _ mem => mem
    requested := fun _ mem => .inl mem
    shape := ?_
    asked := fun _ => True.intro
    failure := fun _ failed => by cases failed
    named := ?_ }⟩
  · refine ⟨⟨urls, answer⟩, ?_, ?_⟩
    · intro c mem
      obtain ⟨low, high⟩ := List.mem_range'_1.mp mem
      have less : c - s.calls.length < urls.length := by omega
      have there := child_at _ less _ (List.getElem?_eq_getElem less)
      rw [Nat.add_sub_cancel' low] at there
      refine ⟨by omega, _, there, ?_, Nat.sub_add_cancel start.2, rfl⟩
      rw [names]
      exact List.mem_map_of_mem (List.getElem_mem less)
    · intro u mem
      rw [names] at mem
      obtain ⟨e, known, url⟩ := List.mem_map.mp mem
      obtain ⟨k, there⟩ := List.mem_iff_getElem?.mp known
      have less : k < urls.length := (List.getElem?_eq_some_iff.mp there).1
      exact ⟨s.calls.length + k, List.mem_range'_1.mpr ⟨by omega, by omega⟩, _,
        child_at k less e there, url⟩
  · intro k child there
    rw [List.getElem?_map] at there
    obtain ⟨e, known, same⟩ := Option.map_eq_some_iff.mp there
    have less : k < urls.length := (List.getElem?_eq_some_iff.mp known).1
    rw [← same, names]
    exact ⟨List.mem_map_of_mem (List.mem_of_getElem? known), rfl, rfl, rfl,
      List.mem_range'_1.mpr ⟨by omega, by omega⟩⟩

/-- Every step is such a move. -/
theorem moved_of_resumed (found : s.calls[i]? = some call) (here : Shape parser s i call)
    (step : Resumed parser s i call t) : ∃ moved new, Moved parser s t i call moved new := by
  cases step with
  | tooDeep waiting may depth =>
      refine ⟨_, _, moved_of_refused found waiting here fun e failed => ?_⟩
      cases failed
      exact .tooDeep
  | skipped waiting may depth visited =>
      refine ⟨_, _, moved_of_refused found waiting here fun e failed => ?_⟩
      cases failed
      exact .skipped
  | requested waiting may depth fresh =>
      unfold Shape at here
      rw [waiting] at here
      refine ⟨{ call with stage := .fetching }, [], {
        found
        calls := (List.append_nil _).symm
        unfinished := by rw [SitemapCall.result?, waiting]
        url := rfl
        depth := rfl
        parent := rfl
        children := fun _ => rfl
        kept := fun _ mem => List.mem_append_left _ mem
        requested := ?_
        shape := ⟨here, Nat.pos_of_ne_zero depth⟩
        asked := fun _ => True.intro
        failure := fun _ failed => by cases failed
        named := fun _ _ there => by cases there }⟩
      intro entry mem
      rcases List.mem_append.mp mem with before | last
      · exact .inl before
      · exact .inr ⟨List.mem_singleton.mp last, rfl⟩
  | arrived fetching =>
      unfold Shape at here
      rw [fetching] at here
      exact ⟨_, _, moved_of_stage found (by rw [SitemapCall.result?, fetching]) .reading rfl rfl
        (fun _ => here) (fun _ _ => True.intro) fun _ failed => by cases failed⟩
  | failed e busy answer =>
      refine ⟨_, _, moved_of_own found busy.symm here (by rw [childUrls, answer])
        (by rw [leafEntries, answer]; rfl) fun e' failed => ?_⟩
      cases failed
      exact .answered e (.inl answer)
  | unreadable e reading answer =>
      refine ⟨_, _, moved_of_own found (.inl reading) here (by rw [childUrls, answer])
        (by rw [leafEntries, answer]; rfl) fun e' failed => ?_⟩
      cases failed
      exact .answered e (.inr answer)
  | leaf urls reading answer =>
      exact ⟨_, _, moved_of_own found (.inl reading) here (childUrls_of_leaf answer)
        (by rw [leafEntries, answer]; rfl) fun _ failed => by cases failed⟩
  | forked urls reading answer => exact moved_of_fork found reading here answer
  | joined joining all =>
      unfold Shape at here
      rw [joining] at here
      have answered : Answered parser s i call _ := .joined here all
      refine ⟨_, _, moved_of_stage found (by rw [SitemapCall.result?, joining]) _ rfl rfl
        (fun evolves => .inr ((answered.mono evolves).moveTo _))
        (fun evolves _ => (answered.mono evolves).moveTo _) fun e failed => ?_⟩
      injection failed with failed
      exact .collected e failed

end Steps

end Sitemap

end Webfang
