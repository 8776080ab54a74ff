import Webfang.Sitemap.IndexRuns

/-!
# What the recursion collects

A document that is visited is skipped, however deep the recursion could still go below it.  Where
every document that is skipped has been asked for with enough depth, and none is asked for while
another request for it is under way, each is asked for once, and the result has the entries of all
leaves that a chain within the depth leads to.
-/

set_option linter.unusedSectionVars false

namespace Webfang

namespace Sitemap

open KeyedRows StepSystem

/-! ## Collected results -/

section Results

variable {υ τ : Type} [LinearOrder υ] [LinearOrder τ] {parser : SitemapParser υ τ}
  {results : List (υ × ParseResult υ τ)} {entries : List (SitemapUrl υ τ)} {e : SitemapUrl υ τ}
  {sortBy : SortBy (SitemapUrl υ τ)}

theorem mem_of_mem_dedupAndSort (permutes : ∀ comparator l, (sortBy comparator l).Perm l)
    (mem : e ∈ dedupAndSortSitemapUrls sortBy entries) : e ∈ entries := by
  have kept := (permutes compareEntries _).mem_iff.mp mem
  have sorted := (List.destutter_sublist _ _).subset kept
  exact (permutes compareUrls entries).mem_iff.mp sorted

/-- No URL is dropped. -/
theorem exists_mem_dedupAndSort (permutes : ∀ comparator l, (sortBy comparator l).Perm l)
    (mem : e ∈ entries) : ∃ e' ∈ dedupAndSortSitemapUrls sortBy entries, e'.url = e.url := by
  have sorted : e ∈ sortBy compareUrls entries := (permutes compareUrls entries).mem_iff.mpr mem
  cases row : rowAt SitemapUrl.url (dedupByUrl (sortBy compareUrls entries)) e.url with
  | none =>
      rw [rowAt_dedupByUrl] at row
      exact absurd (List.mem_map_of_mem sorted) (rowAt_eq_none.mp row)
  | some e' =>
      obtain ⟨kept, same⟩ := rowAt_some row
      exact ⟨e', (permutes compareEntries _).mem_iff.mpr kept, same⟩

/-- No child was answered with a challenge. -/
def Unchallenged (results : List (υ × ParseResult υ τ)) : Prop :=
  ∀ child ∈ results, ∀ e, child.2 = .error e → e.isWafChallenge = false

theorem find?_challenge_eq_none (clean : Unchallenged results) :
    ((results.filterMap failureOf).find? fun failure => failure.2.isWafChallenge) = none := by
  refine List.find?_eq_none.mpr fun failure mem challenge => ?_
  obtain ⟨⟨u, result⟩, known, failed⟩ := List.mem_filterMap.mp mem
  cases result with
  | ok entries => cases failed
  | error e =>
      cases failed
      rw [clean _ known e rfl] at challenge
      cases challenge

/-- Without a challenge the result is an error only where the children have no entry. -/
theorem collectChildren_cases (parser : SitemapParser υ τ) (clean : Unchallenged results) :
    (∃ e : SitemapError, collectChildren parser results = .error e ∧ e.isWafChallenge = false ∧
        results.flatMap (fun child => resultEntries child.2) = []) ∨
      collectChildren parser results = .ok (dedupAndSortSitemapUrls parser.sortBy
        (results.flatMap fun child => resultEntries child.2)) := by
  unfold collectChildren
  dsimp only
  rw [find?_challenge_eq_none clean]
  dsimp only
  split
  · rename_i none_
    have empty := List.isEmpty_iff.mp none_
    split
    · exact .inl ⟨_, rfl, rfl, empty⟩
    · exact .inl ⟨_, rfl, rfl, empty⟩
  · exact .inr rfl

theorem collectChildren_unchallenged (clean : Unchallenged results) {e : SitemapError}
    (failed : collectChildren parser results = .error e) : e.isWafChallenge = false := by
  rcases collectChildren_cases parser clean with ⟨e', result, harmless, _⟩ | result
  · rw [result] at failed
    cases failed
    exact harmless
  · rw [result] at failed
    cases failed

theorem mem_of_mem_collectChildren (permutes : ∀ comparator l, (parser.sortBy comparator l).Perm l)
    (clean : Unchallenged results) (mem : e ∈ resultEntries (collectChildren parser results)) :
    ∃ child ∈ results, e ∈ resultEntries child.2 := by
  rcases collectChildren_cases parser clean with ⟨e', result, _, _⟩ | result
  · rw [result] at mem
    cases mem
  · rw [result] at mem
    exact List.mem_flatMap.mp (mem_of_mem_dedupAndSort permutes mem)

theorem exists_mem_collectChildren (permutes : ∀ comparator l, (parser.sortBy comparator l).Perm l)
    (clean : Unchallenged results) {child : υ × ParseResult υ τ} (known : child ∈ results)
    (mem : e ∈ resultEntries child.2) :
    ∃ e' ∈ resultEntries (collectChildren parser results), e'.url = e.url := by
  have listed : e ∈ results.flatMap fun child => resultEntries child.2 :=
    List.mem_flatMap.mpr ⟨child, known, mem⟩
  rcases collectChildren_cases parser clean with ⟨e', _, _, none_⟩ | result
  · rw [none_] at listed
    cases listed
  · rw [result]
    exact exists_mem_dedupAndSort permutes listed

end Results

section Coverage

variable {υ τ : Type} [LinearOrder υ] [LinearOrder τ] {parser : SitemapParser υ τ} {root : υ}
  {graph : Set υ} {s t : Recursion υ τ} {i j : Nat} {call moved other : SitemapCall υ τ}
  {new : List (SitemapCall υ τ)}

/-! ## Calls for documents of the graph -/

/-- The calls are for documents of the graph, and none has come to a challenge. -/
structure Recursion.Within (graph : Set υ) (s : Recursion υ τ) : Prop where
  inside : ∀ (j : Nat) (call : SitemapCall υ τ), s.calls[j]? = some call → call.url ∈ graph
  clean : ∀ (j : Nat) (call : SitemapCall υ τ), s.calls[j]? = some call → ∀ e,
    call.stage = .finished (.error e) → e.isWafChallenge = false

theorem resultAt_eq_some {r : υ × ParseResult υ τ} (result : s.resultAt j = some r) :
    ∃ call : SitemapCall υ τ, s.calls[j]? = some call ∧ call.url = r.1 ∧
      call.stage = .finished r.2 := by
  obtain ⟨call, found, pair⟩ := Option.bind_eq_some_iff.mp result
  obtain ⟨known, there, same⟩ := Option.map_eq_some_iff.mp pair
  refine ⟨call, found, by rw [← same], ?_⟩
  unfold SitemapCall.result? at there
  split at there
  · rename_i stage
    cases there
    rw [stage, ← same]
  · cases there

theorem Recursion.Within.unchallenged (within : s.Within graph) (children : List Nat) :
    Unchallenged (children.filterMap s.resultAt) := by
  intro child mem e failed
  obtain ⟨c, _, result⟩ := List.mem_filterMap.mp mem
  obtain ⟨call, found, _, stage⟩ := resultAt_eq_some result
  rw [failed] at stage
  exact within.clean c call found e stage

/-- What is served is no challenge. -/
theorem Failure.unchallenged (served : SitemapGraph parser graph) (within : s.Within graph)
    (inside : call.url ∈ graph) {e : SitemapError} (failure : Failure parser s call e) :
    e.isWafChallenge = false := by
  cases failure with
  | tooDeep => rfl
  | skipped => rfl
  | answered _ answer =>
      rcases served.served call.url inside with empty | ⟨urls, isIndex, _, parsed⟩
      · rw [empty] at answer
        rcases answer with failed | unreadable
        · cases failed
        · cases unreadable
          rfl
      · rw [parsed] at answer
        rcases answer with failed | unreadable
        · cases failed
        · cases unreadable
  | collected _ result => exact collectChildren_unchallenged (within.unchallenged _) result

theorem within_step (served : SitemapGraph parser graph) (shaped : s.Shaped parser root)
    (within : s.Within graph) (step : s.step parser i = some t) : t.Within graph := by
  obtain ⟨call, moved, new, _, moves⟩ := shaped.moves step
  constructor
  · intro j other there
    rcases moves.call_cases there with ⟨_, same⟩ | ⟨_, there'⟩ | ⟨k, _, there'⟩
    · rw [same, moves.url]
      exact within.inside i call moves.found
    · exact within.inside j other there'
    · exact served.closed call.url (within.inside i call moves.found) other.url
        (moves.named k other there').1
  · intro j other there e failed
    rcases moves.call_cases there with ⟨_, same⟩ | ⟨_, there'⟩ | ⟨k, _, there'⟩
    · rw [same] at failed
      exact (moves.failure e failed).unchallenged served within (within.inside i call moves.found)
    · exact within.clean j other there' e failed
    · rw [(moves.named k other there').2.1] at failed
      cases failed

/-! ## Skipped documents -/

/-- What is below the document of the call is below it where it was asked for. -/
def Settled (parser : SitemapParser υ τ) (s : Recursion υ τ) (call : SitemapCall υ τ) : Prop :=
  call.depth = 0 ∨ ∃ depth, (call.url, depth) ∈ s.fetched ∧
    ∀ leaf, LeafWithin parser call.url call.depth leaf → LeafWithin parser call.url depth leaf

/-- A call that may start and has depth left skips its document only where the earlier request left
enough depth, and asks for it only where no other request for it is under way. -/
def HidesNothing (parser : SitemapParser υ τ) (s : Recursion υ τ) (i : Nat) : Prop :=
  ∀ call, s.calls[i]? = some call → call.stage = .waiting → s.mayStart parser i call →
    0 < call.depth →
      if call.url ∈ s.visited then
        ∃ depth, (call.url, depth) ∈ s.fetched ∧ ∀ leaf,
          LeafWithin parser call.url call.depth leaf → LeafWithin parser call.url depth leaf
      else ∀ other ∈ s.calls, other.stage = .fetching → other.url ≠ call.url

/-- No document is asked for twice, and none below a call is dropped. -/
structure Recursion.Kept (parser : SitemapParser υ τ) (s : Recursion υ τ) : Prop where
  distinct : (s.fetched.map (·.1)).Nodup
  underWay : ∀ entry ∈ s.fetched, entry.1 ∈ s.visited ∨ ∃ (j : Nat) (call : SitemapCall υ τ),
    s.calls[j]? = some call ∧ call.stage = .fetching ∧ call.url = entry.1
  settled : ∀ (j : Nat) (call : SitemapCall υ τ), s.calls[j]? = some call →
    call.stage = .waiting ∨ Settled parser s call

theorem Settled.mono (settled : Settled parser s call) (evolves : s.Evolves t)
    (url : moved.url = call.url) (depth : moved.depth = call.depth) : Settled parser t moved := by
  unfold Settled
  rw [url, depth]
  refine settled.imp_right fun ⟨d, fetched, below_⟩ => ⟨d, evolves.fetched _ fetched, below_⟩

/-- The call that goes on is settled. -/
theorem settled_of_resumed (kept : s.Kept parser) (spares : HidesNothing parser s i)
    (found : s.calls[i]? = some call) (resumed : Resumed parser s i call t)
    (evolves : s.Evolves t) : Settled parser t call := by
  have earlier : call.stage ≠ .waiting → Settled parser t call := fun started =>
    ((kept.settled i call found).resolve_left started).mono evolves rfl rfl
  cases resumed with
  | tooDeep waiting may depth => exact .inl depth
  | skipped waiting may depth visited =>
      have spared := spares call found waiting may (Nat.pos_of_ne_zero depth)
      rw [if_pos visited] at spared
      exact .inr spared
  | requested waiting may depth fresh =>
      exact .inr ⟨call.depth, List.mem_append_right _ (List.mem_singleton_self _), fun _ within =>
        within⟩
  | arrived fetching => exact earlier (by rw [fetching]; exact nofun)
  | failed e busy answer =>
      refine earlier ?_
      rcases busy with stage | stage
      · rw [stage]
        exact nofun
      · rw [stage]
        exact nofun
  | unreadable e reading answer | leaf urls reading answer | forked urls reading answer =>
      exact earlier (by rw [reading]; exact nofun)
  | joined joining all => exact earlier (by rw [joining]; exact nofun)

/-- What is asked for once more has been asked for before neither visited nor under way. -/
theorem distinct_of_resumed (kept : s.Kept parser) (spares : HidesNothing parser s i)
    (found : s.calls[i]? = some call) (resumed : Resumed parser s i call t) :
    (t.fetched.map (·.1)).Nodup := by
  cases resumed with
  | requested waiting may depth fresh =>
      have spared := spares call found waiting may (Nat.pos_of_ne_zero depth)
      rw [if_neg fresh] at spared
      change ((s.fetched ++ [(call.url, call.depth)]).map (·.1)).Nodup
      rw [List.map_append, List.map_singleton, ← List.concat_eq_append]
      refine List.Nodup.concat ?_ kept.distinct
      intro earlier
      obtain ⟨entry, mem, same⟩ := List.mem_map.mp earlier
      rcases kept.underWay entry mem with visited | ⟨j, other, there, fetching, url⟩
      · rw [same] at visited
        exact fresh visited
      · exact spared other (List.mem_of_getElem? there) fetching (url.trans same)
  | tooDeep | skipped | arrived | failed | unreadable | leaf | forked | joined =>
      exact kept.distinct

/-- A request that is under way stays so or has its document visited. -/
theorem underWay_of_resumed (served : SitemapGraph parser graph) (within : s.Within graph)
    (kept : s.Kept parser) (resumed : Resumed parser s i call t)
    (moves : Moved parser s t i call moved new) {entry : υ × Nat} (mem : entry ∈ t.fetched) :
    entry.1 ∈ t.visited ∨ ∃ (j : Nat) (call : SitemapCall υ τ), t.calls[j]? = some call ∧
      call.stage = .fetching ∧ call.url = entry.1 := by
  rcases moves.requested entry mem with earlier | ⟨same, fetching⟩
  · rcases kept.underWay entry earlier with visited | ⟨j, other, there, fetching, url⟩
    · refine .inl ?_
      cases resumed with
      | arrived => exact List.mem_cons_of_mem _ visited
      | tooDeep | skipped | requested | failed | unreadable | leaf | forked | joined =>
          exact visited
    · by_cases place : i = j
      · rw [← place, moves.found, Option.some.injEq] at there
        rw [← there] at fetching url
        refine .inl ?_
        cases resumed with
        | arrived => exact url ▸ List.mem_cons_self
        | failed e busy answer =>
            rcases served.served call.url (within.inside i call moves.found) with
              empty | ⟨urls, isIndex, _, parsed⟩
            · rw [answer] at empty
              cases empty
            · rw [answer] at parsed
              cases parsed
        | tooDeep other_ | skipped other_ | requested other_ | unreadable _ other_ | leaf _ other_
        | forked _ other_ | joined other_ =>
            rw [fetching] at other_
            cases other_
      · exact .inr ⟨j, other, moves.there place there, fetching, url⟩
  · rw [same]
    exact .inr ⟨i, moved, moves.here, fetching, moves.url⟩

theorem kept_step (served : SitemapGraph parser graph) (shaped : s.Shaped parser root)
    (within : s.Within graph) (kept : s.Kept parser) (spares : HidesNothing parser s i)
    (step : s.step parser i = some t) : t.Kept parser := by
  obtain ⟨call, moved, new, resumed, moves⟩ := shaped.moves step
  constructor
  · exact distinct_of_resumed kept spares moves.found resumed
  · intro entry mem
    exact underWay_of_resumed served within kept resumed moves mem
  · intro j other there
    rcases moves.call_cases there with ⟨_, same⟩ | ⟨_, there'⟩ | ⟨k, _, there'⟩
    · have settled := settled_of_resumed kept spares moves.found resumed moves.evolves
      rw [same]
      unfold Settled
      rw [moves.url, moves.depth]
      exact .inr settled
    · exact (kept.settled j other there').imp_right fun settled =>
        settled.mono moves.evolves rfl rfl
    · exact .inl (moves.named k other there').2.1

theorem kept_start (root : υ) : (Recursion.start parser root).Kept parser where
  distinct := List.nodup_nil
  underWay := fun _ mem => absurd mem List.not_mem_nil
  settled := by
    intro j call found
    cases j with
    | zero =>
        cases found
        exact .inl rfl
    | succ j => cases found

theorem within_start (inside : root ∈ graph) : (Recursion.start parser root).Within graph where
  inside := by
    intro j call found
    cases j with
    | zero =>
        cases found
        exact inside
    | succ j => cases found
  clean := by
    intro j call found e failed
    cases j with
    | zero =>
        cases found
        cases failed
    | succ j => cases found

/-! ## The result -/

variable {e : SitemapUrl υ τ} {r result : ParseResult υ τ}

/-- A finished call with a child has joined all of its children. -/
theorem joined_of_child {i k : Nat} {parent : SitemapCall υ τ} (shape : Shape parser s i parent)
    (finished : parent.stage = .finished r) (child : k ∈ parent.children) :
    (∀ c ∈ parent.children, s.isFinished c) ∧
      r = collectChildren parser (parent.children.filterMap s.resultAt) := by
  rw [Shape, finished] at shape
  rcases shape with ⟨childless, _⟩ | answered
  · rw [childless] at child
    exact absurd child List.not_mem_nil
  · cases answered with
    | own _ childless =>
        rw [childless] at child
        exact absurd child List.not_mem_nil
    | joined forked all => exact ⟨all, rfl⟩

/-- What the first call returns it returns behind all others. -/
theorem all_finished (shaped : s.Shaped parser root) (returned : s.returned = some result)
    (found : s.calls[j]? = some call) : ∃ r, call.stage = .finished r := by
  induction j using Nat.strong_induction_on generalizing call with
  | h j ih =>
      by_cases later : 0 < j
      · obtain ⟨p, parent, less, there, _, child, _⟩ := shaped.tree j call found later
        obtain ⟨r, finished⟩ := ih p less there
        have joined := joined_of_child (shaped.shape p parent there) finished child
        exact (isFinished_iff found).mp (joined.1 j child)
      · obtain ⟨pair, first, _⟩ := Option.map_eq_some_iff.mp returned
        obtain rfl : j = 0 := by omega
        obtain ⟨first_, found', _, finished⟩ := resultAt_eq_some first
        rw [found, Option.some.injEq] at found'
        rw [found']
        exact ⟨_, finished⟩

/-- Every URL of a call's result is in what the first call returns; by induction from a call to its
parent. -/
theorem rises (permutes : ∀ comparator l, (parser.sortBy comparator l).Perm l)
    (shaped : s.Shaped parser root) (within : s.Within graph) (returned : s.returned = some result)
    (found : s.calls[j]? = some call) (finished : call.stage = .finished r)
    (mem : e ∈ resultEntries r) : ∃ e' ∈ resultEntries result, e'.url = e.url := by
  induction j using Nat.strong_induction_on generalizing call r e with
  | h j ih =>
      by_cases later : 0 < j
      · obtain ⟨p, parent, less, there, _, child, _⟩ := shaped.tree j call found later
        obtain ⟨r', finished'⟩ := all_finished shaped returned there
        have joined := joined_of_child (shaped.shape p parent there) finished' child
        have known : (call.url, r) ∈ parent.children.filterMap s.resultAt :=
          List.mem_filterMap.mpr ⟨j, child, resultAt_of_result found finished⟩
        obtain ⟨e₁, mem₁, same₁⟩ := exists_mem_collectChildren permutes
          (within.unchallenged parent.children) known mem
        obtain ⟨e₂, mem₂, same₂⟩ := ih p less there finished' (joined.2 ▸ mem₁)
        exact ⟨e₂, mem₂, same₂.trans same₁⟩
      · obtain rfl : j = 0 := by omega
        rw [Recursion.returned, resultAt_of_result found finished] at returned
        cases returned
        exact ⟨e, mem, rfl⟩

/-- Every entry of a call's result is one of a leaf below its document; by induction on the calls
behind it. -/
theorem mem_leafEntries_of_result
    (permutes : ∀ comparator l, (parser.sortBy comparator l).Perm l)
    (shaped : s.Shaped parser root) (within : s.Within graph) {n : Nat}
    (left : s.calls.length - j ≤ n) (found : s.calls[j]? = some call)
    (finished : call.stage = .finished r) (mem : e ∈ resultEntries r) :
    ∃ leaf, LeafWithin parser call.url call.depth leaf ∧ e ∈ leafEntries parser leaf := by
  induction n generalizing j call r with
  | zero =>
      have inside : j < s.calls.length := (List.getElem?_eq_some_iff.mp found).1
      omega
  | succ n ih =>
      have shape := shaped.shape j call found
      rw [Shape, finished] at shape
      rcases shape with ⟨_, none_⟩ | answered
      · rw [none_] at mem
        cases mem
      · cases answered with
        | own _ childless depth none_named entries =>
            rw [entries] at mem
            exact ⟨call.url, .here (exists_leaf_of_mem mem) depth, mem⟩
        | joined forked all =>
            obtain ⟨⟨u, r'⟩, known, mem'⟩ := mem_of_mem_collectChildren permutes
              (within.unchallenged call.children) mem
            obtain ⟨c, child, result⟩ := List.mem_filterMap.mp known
            obtain ⟨later, other, there, named, depth, _⟩ := forked.child c child
            obtain ⟨other', there', _, finished'⟩ := resultAt_eq_some result
            rw [there, Option.some.injEq] at there'
            rw [← there'] at finished'
            obtain ⟨leaf, below_, mem_leaf⟩ := ih (by omega) there finished' mem'
            refine ⟨leaf, ?_, mem_leaf⟩
            rw [← depth]
            exact below_.there named

/-- A leaf below a document that is asked for has its URLs in the result; by induction on the chain
to the leaf, since a skipped document has been asked for with enough depth for the rest of it. -/
theorem exists_mem_result_of_fetched
    (permutes : ∀ comparator l, (parser.sortBy comparator l).Perm l)
    (shaped : s.Shaped parser root) (within : s.Within graph) (kept : s.Kept parser)
    (returned : s.returned = some result) {u leaf : υ} {n depth : Nat}
    (chain : LeafAt parser u n leaf) (fetched : (u, depth) ∈ s.fetched)
    (below_ : LeafWithin parser u depth leaf) (mem : e ∈ leafEntries parser leaf) :
    ∃ e' ∈ resultEntries result, e'.url = e.url := by
  induction n using Nat.strong_induction_on generalizing u depth with
  | h n ih =>
      obtain ⟨n', less, chain'⟩ := below_
      by_cases shorter : n' < n
      · exact ih n' shorter chain' fetched ⟨n', less, chain'⟩
      · obtain ⟨j, call, found, pair, asked⟩ := shaped.asked _ fetched
        obtain ⟨url, deep⟩ := Prod.mk.inj pair
        obtain ⟨r, finished⟩ := all_finished shaped returned found
        rw [Asked, finished] at asked
        rw [url] at chain
        cases asked with
        | own _ childless _ none_named entries =>
            cases chain with
            | here _ =>
                rw [← entries] at mem
                exact rises permutes shaped within returned found finished mem
            | there named _ =>
                rw [none_named] at named
                exact absurd named List.not_mem_nil
        | joined forked all =>
            cases chain with
            | here is_leaf =>
                obtain ⟨urls, index⟩ := forked.index
                obtain ⟨urls', is_leaf⟩ := is_leaf
                rw [index] at is_leaf
                cases is_leaf
            | there named rest =>
                rename_i c m
                obtain ⟨place, mem_child, child, there, same⟩ := forked.named c named
                obtain ⟨_, child', there', _, depth', _⟩ := forked.child place mem_child
                rw [there, Option.some.injEq] at there'
                rw [← there'] at depth'
                rw [← same] at rest
                have enough : m < child.depth := by omega
                obtain ⟨r', finished'⟩ := all_finished shaped returned there
                have settled := (kept.settled place child there).resolve_left
                  (by rw [finished']; intro waiting; cases waiting)
                rcases settled with none_left | ⟨d, earlier, covers⟩
                · omega
                · exact ih m (by omega) rest earlier (covers leaf ⟨m, enough, rest⟩)

/-- Each document is asked for at most once; and what is returned are entries of the leaves that a
chain within the depth leads to, one for every URL of these. -/
structure Collects (parser : SitemapParser υ τ) (root : υ) (s : Recursion υ τ) : Prop where
  once : (s.fetched.map (·.1)).Nodup
  sound : ∀ result, s.returned = some result → ∀ e ∈ resultEntries result,
    ∃ leaf, LeafWithin parser root parser.config.maxDepth leaf ∧ e ∈ leafEntries parser leaf
  complete : ∀ result, s.returned = some result →
    ∀ leaf, LeafWithin parser root parser.config.maxDepth leaf → ∀ e ∈ leafEntries parser leaf,
      ∃ e' ∈ resultEntries result, e'.url = e.url

theorem collects_of_kept (permutes : ∀ comparator l, (parser.sortBy comparator l).Perm l)
    (shaped : s.Shaped parser root) (within : s.Within graph) (kept : s.Kept parser) :
    Collects parser root s where
  once := kept.distinct
  sound := by
    intro result returned e mem
    obtain ⟨first, found, url, depth, _⟩ := shaped.first
    obtain ⟨pair, there, same⟩ := Option.map_eq_some_iff.mp returned
    obtain ⟨first', found', _, finished⟩ := resultAt_eq_some there
    rw [found, Option.some.injEq] at found'
    rw [← found', same] at finished
    have below_ := mem_leafEntries_of_result permutes shaped within (Nat.le_refl _) found finished
      mem
    rw [url, depth] at below_
    exact below_
  complete := by
    intro result returned leaf below_ e mem
    obtain ⟨first, found, url, depth, _⟩ := shaped.first
    obtain ⟨r, finished⟩ := all_finished shaped returned found
    have settled := (kept.settled 0 first found).resolve_left (by rw [finished]; exact nofun)
    unfold Settled at settled
    rw [url, depth] at settled
    rcases settled with none_left | ⟨d, fetched, covers⟩
    · rw [none_left] at below_
      exact absurd below_ not_leafWithin_zero
    · obtain ⟨n, less, chain⟩ := covers leaf below_
      exact exists_mem_result_of_fetched permutes shaped within kept returned chain fetched
        ⟨n, less, chain⟩ mem

/-- For every graph of documents and every order of the steps the recursion ends; it does not stand
still before, if the children of the root can be polled; and where no step hides a document it
collects the leaves. -/
theorem parseFromUrl_collects (permutes : ∀ comparator l, (parser.sortBy comparator l).Perm l)
    (served : SitemapGraph parser graph) (inside : root ∈ graph) :
    (∀ run t, parseFromUrl parser root run = some t →
        run.length ≤ 4 + load parser parser.config.maxDepth root) ∧
      (Concurrent parser root ↔ ∀ run t, parseFromUrl parser root run = some t →
        t.returned = none → ∃ i t', t.step parser i = some t') ∧
      ∀ run t, parseFromUrl parser root run = some t →
        Along (fun s i => s.step parser i) (HidesNothing parser) (.start parser root) run →
          Collects parser root t := by
  have preserved : ∀ (s : Recursion υ τ) (i : Nat) (t : Recursion υ τ),
      (s.Shaped parser root ∧ s.Within graph) ∧ s.Kept parser → HidesNothing parser s i →
        s.step parser i = some t → (t.Shaped parser root ∧ t.Within graph) ∧ t.Kept parser := by
    intro s i t ⟨⟨shaped, within⟩, kept⟩ spares step
    exact ⟨⟨shaped_step shaped step, within_step served shaped within step⟩,
      kept_step served shaped within kept spares step⟩
  refine ⟨fun _ _ executes => run_length_le executes, concurrent_iff, ?_⟩
  intro run t executes along
  obtain ⟨⟨shaped, within⟩, kept⟩ := execute_invariant_along preserved executes along
    ⟨⟨shaped_start root, within_start inside⟩, kept_start root⟩
  exact collects_of_kept permutes shaped within kept

end Coverage

/-! ## Examples -/

/-- An entry without metadata. -/
def plainEntry (url : ℕ) : SitemapUrl ℕ ℕ := ⟨url, none, none, none⟩

def plainParser (config : IndexConfig) (answer : ℕ → SitemapAnswer ℕ ℕ) : SitemapParser ℕ ℕ :=
  ⟨config, answer, stableSort, fun u => u.repr.toList, fun _ => 0, fun u => u.repr.toList⟩

/-- An index with one leaf. -/
def oneLeaf : SitemapParser ℕ ℕ :=
  plainParser ⟨3, 4, false⟩ fun u =>
    if u = 0 then .parsed [plainEntry 1] true else .parsed [plainEntry 2] false

theorem stableSort_perm {α : Type} (comparator : α → α → Ordering) (l : List α) :
    (stableSort comparator l).Perm l := List.perm_insertionSort ..

theorem oneLeaf_served : SitemapGraph oneLeaf Set.univ where
  closed := fun _ _ _ _ => Set.mem_univ _
  served := by
    intro u _
    by_cases index : u = 0
    · exact .inr ⟨_, true, List.cons_ne_nil _ _, if_pos index⟩
    · exact .inr ⟨_, false, List.cons_ne_nil _ _, if_neg index⟩

theorem hidesNothing_of_started {υ τ : Type} [LinearOrder υ] [LinearOrder τ]
    {parser : SitemapParser υ τ} {s : Recursion υ τ} {i : Nat} {call : SitemapCall υ τ}
    (found : s.calls[i]? = some call) (started : call.stage ≠ .waiting) :
    HidesNothing parser s i := by
  intro call' found' waiting
  rw [found, Option.some.injEq] at found'
  exact absurd (found' ▸ waiting) started

/-- The first request of all, or one while no other is under way. -/
theorem hidesNothing_of_fresh {υ τ : Type} [LinearOrder υ] [LinearOrder τ]
    {parser : SitemapParser υ τ} {s : Recursion υ τ} {i : Nat} {call : SitemapCall υ τ}
    (found : s.calls[i]? = some call) (fresh : call.url ∉ s.visited)
    (idle : ∀ other ∈ s.calls, other.stage ≠ .fetching) : HidesNothing parser s i := by
  intro call' found' _ _ _
  rw [found, Option.some.injEq] at found'
  rw [if_neg (found' ▸ fresh)]
  exact fun other mem fetching => absurd fetching (idle other mem)

theorem oneLeaf_spared : Along (fun s i => s.step oneLeaf i) (HidesNothing oneLeaf)
    (.start oneLeaf 0) [0, 0, 0, 1, 1, 1, 0] := by
  refine .cons (hidesNothing_of_fresh rfl (by decide) ?_) rfl ?_
  · intro other mem
    rw [List.mem_singleton.mp mem]
    exact nofun
  refine .cons (hidesNothing_of_started rfl nofun) rfl ?_
  refine .cons (hidesNothing_of_started rfl nofun) rfl ?_
  refine .cons (hidesNothing_of_fresh rfl (by decide) ?_) rfl ?_
  · intro other mem
    rcases List.mem_cons.mp mem with root | leaf
    · rw [root]
      exact nofun
    · rw [List.mem_singleton.mp leaf]
      exact nofun
  refine .cons (hidesNothing_of_started rfl nofun) rfl ?_
  refine .cons (hidesNothing_of_started rfl nofun) rfl ?_
  exact .cons (hidesNothing_of_started rfl nofun) rfl (along_nil _)

theorem oneLeaf_collects : ∃ t, parseFromUrl oneLeaf 0 [0, 0, 0, 1, 1, 1, 0] = some t ∧
    t.returned = some (.ok [plainEntry 2]) ∧ Collects oneLeaf 0 t :=
  ⟨_, rfl, rfl, (parseFromUrl_collects stableSort_perm oneLeaf_served (Set.mem_univ 0)).2.2 _ _ rfl
    oneLeaf_spared⟩

/-- The index names the document two and another index of it, which comes first. -/
def skewed (concurrency : Nat) : SitemapParser ℕ ℕ :=
  plainParser ⟨3, concurrency, false⟩ fun
    | 0 => .parsed [plainEntry 1, plainEntry 2] true
    | 1 => .parsed [plainEntry 2] true
    | 2 => .parsed [plainEntry 3] true
    | 3 => .parsed [plainEntry 4] false
    | _ => .unreadable .noUrlsFound

theorem skewed_served (concurrency : Nat) : SitemapGraph (skewed concurrency) Set.univ where
  closed := fun _ _ _ _ => Set.mem_univ _
  served := by
    intro u _
    match u with
    | 0 | 1 | 2 => exact .inr ⟨_, true, List.cons_ne_nil _ _, rfl⟩
    | 3 => exact .inr ⟨_, false, List.cons_ne_nil _ _, rfl⟩
    | _ + 4 => exact .inl rfl

/-- One after the other the documents are asked for from the left: two is visited at the depth that
ends there, and skipped at the depth that would reach the leaf; with two at a time it is asked for
twice. -/
theorem skewed_hidden :
    (∃ t, parseFromUrl (skewed 1) 0 [0, 0, 0, 1, 1, 1, 3, 3, 3, 4, 3, 1, 2, 0] = some t ∧
        ¬ Collects (skewed 1) 0 t) ∧
      ∃ t, parseFromUrl (skewed 2) 0 [0, 0, 0, 1, 1, 1, 3, 2] = some t ∧
        ¬ Collects (skewed 2) 0 t := by
  have chain : LeafWithin (skewed 1) 0 3 3 := by
    refine ⟨2, by decide, .there (c := 2) ?_ (.there (c := 3) ?_ (.here ⟨_, rfl⟩))⟩
    · exact List.mem_cons_of_mem _ List.mem_cons_self
    · exact List.mem_cons_self
  constructor
  · refine ⟨_, rfl, fun collects => ?_⟩
    obtain ⟨e, mem, _⟩ := collects.complete _ rfl 3 chain (plainEntry 4) List.mem_cons_self
    cases mem
  · refine ⟨_, rfl, fun collects => ?_⟩
    exact absurd collects.once (by decide)

end Sitemap

end Webfang
