import Webfang.Repair.AdaptiveEngine

/-!
# The cache of repairs

A write into `FnvHasher` forgets the writes before it.  So all documents have one structural hash
and all repairs one key: the cache is a slot, and what it holds is returned to whoever asks before
it expires.
-/

namespace Webfang

open KeyedRows

/-! ## One key -/

/-- What is written last is what is hashed. -/
theorem FnvHasher.finish_writeStr (hasher : FnvHasher) (text : String) :
    (hasher.writeStr text).finish = fnv [0xff] := rfl

/-- The structural hash of every document. -/
theorem structuralHash_eq (tags : TagCounts) : structuralHash tags = FnvHasher.fnv [0xff] := rfl

/-- The selector does not count. -/
theorem cacheKey_eq_cacheKey (selector selector' : String) (hash : UInt64) :
    cacheKey selector hash = cacheKey selector' hash := rfl

/-- The key of every repair. -/
def slotKey : UInt64 := cacheKey "" (FnvHasher.fnv [0xff])

theorem cacheKey_structuralHash (selector : String) (tags : TagCounts) :
    cacheKey selector (structuralHash tags) = slotKey := rfl

variable {F64 F32 Html : Type}

/-! ## Calls -/

/-- A call of the engine. -/
inductive RepairRequest (Html : Type)
  | repair (document : Html) (html failedSelector : String) (domain : Option String)
  | repairTier1 (document : Html) (failedSelector : String)
  | selectSyncAware (htmlRaw selector : String) (domain : Option String)

structure RepairCall (F64 F32 Html : Type) where
  request : RepairRequest Html
  around : Surroundings F64 F32

def RepairCall.selector (call : RepairCall F64 F32 Html) : String :=
  match call.request with
  | .repair _ _ failedSelector _ => failedSelector
  | .repairTier1 _ failedSelector => failedSelector
  | .selectSyncAware _ selector _ => selector

namespace AdaptiveSelectorEngine

variable (engine : AdaptiveSelectorEngine F64 F32 Html)

/-- The tag counts of the document of a call. -/
def tagCounts (call : RepairCall F64 F32 Html) : TagCounts :=
  match call.request with
  | .repair document _ _ _ => (engine.inspect document).tagCounts
  | .repairTier1 document _ => (engine.inspect document).tagCounts
  | .selectSyncAware htmlRaw _ _ => (engine.inspect (engine.parseDocument htmlRaw)).tagCounts

/-- The outcome of a call, if any, and the cache behind it. -/
def perform (cache : RepairCache F64 F32) (call : RepairCall F64 F32 Html) :
    Option (AdaptiveRepairOutcome F64 F32) × RepairCache F64 F32 :=
  match call.request with
  | .repair document html failedSelector domain =>
      (engine.repair call.around cache document html failedSelector domain).map Except.toOption id
  | .repairTier1 document failedSelector =>
      engine.repairTier1 call.around cache document failedSelector
  | .selectSyncAware htmlRaw selector domain =>
      (engine.selectSyncAware call.around cache htmlRaw selector domain).map Except.toOption id

/-- The cache behind a sequence of calls. -/
def cacheAfter (calls : List (RepairCall F64 F32 Html)) : RepairCache F64 F32 :=
  calls.foldl (fun cache call => (engine.perform cache call).2) []

/-- The call repairs the selector itself and puts the outcome into the cache. -/
def Stores (cache : RepairCache F64 F32) (call : RepairCall F64 F32 Html)
    (outcome : AdaptiveRepairOutcome F64 F32) : Prop :=
  engine.perform cache call =
    (some outcome, engine.cacheInsert call.around cache
      (cacheKey call.selector (structuralHash (engine.tagCounts call))) outcome) ∧
  outcome.cacheHit = false

/-- The outcome that the cache holds for the call is returned. -/
def Hits (cache : RepairCache F64 F32) (call : RepairCall F64 F32 Html)
    (outcome : AdaptiveRepairOutcome F64 F32) : Prop :=
  cacheGet cache (cacheKey call.selector (structuralHash (engine.tagCounts call)))
      call.around.lookedUpAt = some outcome ∧
    engine.perform cache call = (some outcome.flagged, cache)

section Steps

variable {engine} {around : Surroundings F64 F32} {cache : RepairCache F64 F32}

theorem tier1_stores (best : SelectorSuggestion F64) (score : F64) :
    (.repaired best (tier1Trace score) : AdaptiveRepairOutcome F64 F32).cacheHit = false := rfl

variable (engine around cache) in
/-- The cascade answers from the cache, stores its outcome, or fails. -/
theorem cascade_cases (selector : String) (hash : UInt64)
    (bestTier1 : Option (SelectorSuggestion F64)) (score : F64) (ctx : SemanticContext) :
    (∃ outcome, cacheGet cache (cacheKey selector hash) around.lookedUpAt = some outcome ∧
      engine.cascade around cache selector hash bestTier1 score ctx =
        (.ok outcome.flagged, cache)) ∨
    (∃ outcome, outcome.cacheHit = false ∧
      engine.cascade around cache selector hash bestTier1 score ctx =
        (.ok outcome, engine.cacheInsert around cache (cacheKey selector hash) outcome)) ∨
    ∃ e, engine.cascade around cache selector hash bestTier1 score ctx = (.error e, cache) := by
  have tier1 : (∃ outcome, outcome.cacheHit = false ∧
      engine.handleTier1Only around cache bestTier1 score hash (cacheKey selector hash) =
        (.ok outcome, engine.cacheInsert around cache (cacheKey selector hash) outcome)) ∨
      ∃ e, engine.handleTier1Only around cache bestTier1 score hash (cacheKey selector hash) =
        (.error e, cache) := by
    cases bestTier1 with
    | none => exact .inr ⟨_, rfl⟩
    | some best => exact .inl ⟨_, tier1_stores best score, rfl⟩
  unfold cascade
  cases found : cacheGet cache (cacheKey selector hash) around.lookedUpAt with
  | some outcome =>
      left
      refine ⟨outcome, rfl, ?_⟩
      simp only [cachedOutcome, found, Option.map_some]
  | none =>
      right
      simp only [cachedOutcome, found, Option.map_none]
      cases fast : engine.tier1FastPath around cache bestTier1 score (cacheKey selector hash) with
      | some answer =>
          unfold tier1FastPath at fast
          cases bestTier1 with
          | none => cases fast
          | some best =>
              simp only at fast
              split at fast
              · cases fast
              · cases fast
                exact .inl ⟨_, tier1_stores best score, rfl⟩
      | none =>
          simp only
          split
          · exact tier1
          · cases around.findSemanticMatch ctx with
            | error e => exact tier1
            | ok semMatch =>
                cases semMatch with
                | none => exact tier1
                | some semMatch => exact .inl ⟨_, rfl, rfl⟩

/-- A call that ends in the cascade. -/
theorem perform_of_cascade {call : RepairCall F64 F32 Html}
    {bestTier1 : Option (SelectorSuggestion F64)} {score : F64} {ctx : SemanticContext}
    (whole : engine.perform cache call = (engine.cascade call.around cache call.selector
      (structuralHash (engine.tagCounts call)) bestTier1 score ctx).map Except.toOption id) :
    (∃ outcome, engine.Hits cache call outcome) ∨ (∃ outcome, engine.Stores cache call outcome) ∨
      engine.perform cache call = (none, cache) := by
  rcases cascade_cases engine call.around cache call.selector (structuralHash (engine.tagCounts call))
    bestTier1 score ctx with
    ⟨outcome, found, answer⟩ | ⟨outcome, fresh, answer⟩ | ⟨e, answer⟩
  · exact .inl ⟨outcome, found, by rw [whole, answer]; rfl⟩
  · exact .inr (.inl ⟨outcome, by rw [whole, answer]; rfl, fresh⟩)
  · exact .inr (.inr (by rw [whole, answer]; rfl))

/-- A call returns what the cache holds, stores what it returns, or returns nothing. -/
theorem perform_cases (cache : RepairCache F64 F32) (call : RepairCall F64 F32 Html) :
    (∃ outcome, engine.Hits cache call outcome) ∨ (∃ outcome, engine.Stores cache call outcome) ∨
      engine.perform cache call = (none, cache) := by
  obtain ⟨request, around⟩ := call
  cases request with
  | repair document html failedSelector domain => exact perform_of_cascade rfl
  | repairTier1 document failedSelector =>
      have whole : engine.perform cache ⟨.repairTier1 document failedSelector, around⟩ =
        engine.repairTier1 around cache document failedSelector := rfl
      unfold repairTier1 at whole
      cases found : cacheGet cache (cacheKey failedSelector
        (structuralHash (engine.inspect document).tagCounts)) around.lookedUpAt with
      | some outcome =>
          simp only [cachedOutcome, found, Option.map_some] at whole
          exact .inl ⟨outcome, found, whole⟩
      | none =>
          right
          simp only [cachedOutcome, found, Option.map_none] at whole
          cases best : engine.bestTier1Suggestion document failedSelector with
          | none =>
              simp only [best] at whole
              exact .inr whole
          | some suggestion =>
              simp only [best, evaluateTier1Outcome] at whole
              split at whole
              · exact .inl ⟨_, whole, tier1_stores _ _⟩
              · exact .inr whole
  | selectSyncAware htmlRaw selector domain =>
      have fails (failed : ∃ e, engine.selectSyncAware around cache htmlRaw selector domain =
          (.error e, cache)) :
          engine.perform cache ⟨.selectSyncAware htmlRaw selector domain, around⟩ =
            (none, cache) := by
        obtain ⟨e, failed⟩ := failed
        have whole : engine.perform cache ⟨.selectSyncAware htmlRaw selector domain, around⟩ =
          (engine.selectSyncAware around cache htmlRaw selector domain).map Except.toOption id := rfl
        rw [whole, failed]
        rfl
      cases hash : around.hashTask with
      | error e =>
          refine .inr (.inr (fails ?_))
          simp only [selectSyncAware, hash]
          exact ⟨_, rfl⟩
      | ok _ =>
          cases suggestion : around.suggestionTask with
          | error e =>
              refine .inr (.inr (fails ?_))
              simp only [selectSyncAware, hash, suggestion]
              exact ⟨_, rfl⟩
          | ok _ =>
              cases fragment : around.fragmentTask with
              | error e =>
                  refine .inr (.inr (fails ?_))
                  simp only [selectSyncAware, hash, suggestion, fragment]
                  exact ⟨_, rfl⟩
              | ok _ =>
                  apply perform_of_cascade
                  simp only [perform, selectSyncAware, hash, suggestion, fragment]
                  rfl

end Steps

/-! ## Runs -/

variable (calls : List (RepairCall F64 F32 Html))

/-- Every hit returns an outcome that an earlier call has stored for the same selector and the same
tag counts, and that has not expired. -/
def HitsOwnRequest : Prop :=
  ∀ before call after, calls = before ++ call :: after → ∀ outcome cache,
    engine.perform (engine.cacheAfter before) call = (some outcome, cache) →
    outcome.cacheHit = true →
    ∃ past earlier between stored, before = past ++ earlier :: between ∧
      engine.Stores (engine.cacheAfter past) earlier stored ∧ outcome = stored.flagged ∧
      call.around.lookedUpAt < earlier.around.storedAt + engine.options.cacheTtl ∧
      earlier.selector = call.selector ∧ engine.tagCounts earlier = engine.tagCounts call

/-- Keys and structural hashes tell the calls apart, and hits stay with their request. -/
def NeverMixes : Prop :=
  engine.HitsOwnRequest calls ∧
  (∀ call ∈ calls, ∀ other ∈ calls,
    cacheKey call.selector (structuralHash (engine.tagCounts call)) =
      cacheKey other.selector (structuralHash (engine.tagCounts other)) →
    call.selector = other.selector ∧
      structuralHash (engine.tagCounts call) = structuralHash (engine.tagCounts other)) ∧
  ∀ call ∈ calls, ∀ other ∈ calls, engine.tagCounts call ≠ engine.tagCounts other →
    structuralHash (engine.tagCounts call) ≠ structuralHash (engine.tagCounts other)

/-- All calls are about one selector and one set of tag counts. -/
def OneRequest : Prop :=
  ∀ call ∈ calls, ∀ other ∈ calls,
    call.selector = other.selector ∧ engine.tagCounts call = engine.tagCounts other

/-- None of these calls stores anything, behind the calls before them. -/
def NoneStores (before between : List (RepairCall F64 F32 Html)) : Prop :=
  ∀ past call after, between = past ++ call :: after →
    ∀ outcome, ¬ engine.Stores (engine.cacheAfter (before ++ past)) call outcome

/-- Until what was stored last expires, the calls are about what it was stored for. -/
def NoForeignLookup : Prop :=
  ∀ past earlier between call after stored,
    calls = past ++ earlier :: between ++ call :: after →
    engine.Stores (engine.cacheAfter past) earlier stored →
    engine.NoneStores (past ++ [earlier]) between →
    call.around.lookedUpAt < earlier.around.storedAt + engine.options.cacheTtl →
    earlier.selector = call.selector ∧ engine.tagCounts earlier = engine.tagCounts call

/-! ## The slot -/

section Slot

variable {engine}

theorem cacheAfter_concat (before : List (RepairCall F64 F32 Html)) (call) :
    engine.cacheAfter (before ++ [call]) = (engine.perform (engine.cacheAfter before) call).2 := by
  rw [cacheAfter, List.foldl_concat, ← cacheAfter]

theorem NoneStores.concat {before between : List (RepairCall F64 F32 Html)} {call}
    (none : engine.NoneStores before between)
    (last : ∀ outcome, ¬ engine.Stores (engine.cacheAfter (before ++ between)) call outcome) :
    engine.NoneStores before (between ++ [call]) := by
  intro past other after split
  rcases List.eq_nil_or_concat after with rfl | ⟨rest, final, rfl⟩
  · obtain ⟨rfl, same⟩ := List.append_inj' split rfl
    cases same
    exact last
  · rw [List.concat_eq_append, ← List.cons_append, ← List.append_assoc] at split
    obtain ⟨inner, -⟩ := List.append_inj' split rfl
    exact none past other rest inner

/-- The row was stored by the last call that stored anything. -/
def StoredLast (engine : AdaptiveSelectorEngine F64 F32 Html)
    (before : List (RepairCall F64 F32 Html)) (row : UInt64 × CachedEntry F64 F32) : Prop :=
  row.1 = slotKey ∧ ∃ past earlier between, before = past ++ earlier :: between ∧
    engine.Stores (engine.cacheAfter past) earlier row.2.outcome ∧
    row.2.expiresAt = earlier.around.storedAt + engine.options.cacheTtl ∧
    engine.NoneStores (past ++ [earlier]) between

theorem StoredLast.concat {before : List (RepairCall F64 F32 Html)} {call}
    {row : UInt64 × CachedEntry F64 F32} (stored : engine.StoredLast before row)
    (idle : ∀ outcome, ¬ engine.Stores (engine.cacheAfter before) call outcome) :
    engine.StoredLast (before ++ [call]) row := by
  obtain ⟨slot, past, earlier, between, rfl, stores, expires, none⟩ := stored
  refine ⟨slot, past, earlier, between ++ [call], by simp, stores, expires, none.concat ?_⟩
  rwa [List.append_assoc, List.singleton_append]

theorem mem_cacheInsert {around : Surroundings F64 F32} {cache : RepairCache F64 F32}
    {key : UInt64} {outcome : AdaptiveRepairOutcome F64 F32} {row : UInt64 × CachedEntry F64 F32}
    (inside : row ∈ engine.cacheInsert around cache key outcome) :
    (row ∈ cache ∧ row.1 ≠ key) ∨
      row = (key, ⟨outcome, around.storedAt + engine.options.cacheTtl⟩) := by
  unfold cacheInsert at inside
  rcases List.mem_append.mp inside with kept | new
  · left
    obtain ⟨member, other⟩ := List.mem_filter.mp kept
    refine ⟨?_, of_decide_eq_true other⟩
    split at member
    · exact List.mem_of_mem_filter member
    · exact member
  · exact .inr (List.mem_singleton.mp new)

/-- What is in the cache was stored last. -/
theorem storedLast_of_mem (before : List (RepairCall F64 F32 Html)) :
    ∀ row ∈ engine.cacheAfter before, engine.StoredLast before row := by
  induction before using List.reverseRecOn with
  | nil => exact fun _ inside => absurd inside List.not_mem_nil
  | append_singleton before call ih =>
      intro row inside
      rw [cacheAfter_concat] at inside
      by_cases stores : ∃ outcome, engine.Stores (engine.cacheAfter before) call outcome
      · -- the new row replaces the slot
        obtain ⟨outcome, stored⟩ := stores
        rw [stored.1] at inside
        rcases mem_cacheInsert inside with ⟨member, other⟩ | rfl
        · exact absurd (ih row member).1 other
        · exact ⟨rfl, before, call, [], rfl, stored, rfl, fun past other after split =>
            absurd split.symm (List.append_ne_nil_of_right_ne_nil past (List.cons_ne_nil _ _))⟩
      · have idle (outcome) := not_exists.mp stores outcome
        have same : (engine.perform (engine.cacheAfter before) call).2 =
            engine.cacheAfter before := by
          rcases engine.perform_cases (engine.cacheAfter before) call with
            ⟨_, hit⟩ | stores' | failed
          · rw [hit.2]
          · exact absurd stores' stores
          · rw [failed]
        rw [same] at inside
        exact (ih row inside).concat idle

/-- A hit comes from the last call that stored anything, and before its outcome has expired. -/
theorem hit_of_storedLast {before : List (RepairCall F64 F32 Html)}
    {call : RepairCall F64 F32 Html} {outcome : AdaptiveRepairOutcome F64 F32}
    {cache : RepairCache F64 F32}
    (answer : engine.perform (engine.cacheAfter before) call = (some outcome, cache))
    (hit : outcome.cacheHit = true) :
    ∃ past earlier between stored, before = past ++ earlier :: between ∧
      engine.Stores (engine.cacheAfter past) earlier stored ∧ outcome = stored.flagged ∧
      call.around.lookedUpAt < earlier.around.storedAt + engine.options.cacheTtl ∧
      engine.NoneStores (past ++ [earlier]) between := by
  rcases engine.perform_cases (engine.cacheAfter before) call with
    ⟨held, hits⟩ | ⟨fresh, stores⟩ | failed
  · cases answer.symm.trans hits.2
    have found := hits.1
    unfold cacheGet at found
    split at found
    next key entry row =>
        split at found
        next live =>
            cases found
            obtain ⟨-, past, earlier, between, split, stores, expires, none⟩ :=
              storedLast_of_mem before _ (rowAt_some row).1
            exact ⟨past, earlier, between, entry.outcome, split, stores, rfl, expires ▸ live, none⟩
        next => cases found
    next => cases found
  · cases answer.symm.trans stores.1
    exact absurd hit (by rw [stores.2]; exact Bool.false_ne_true)
  · cases answer.symm.trans failed

end Slot

/-! ## When requests are not mixed -/

/-- Hits stay with their request where no call finds what was stored for another. -/
theorem hitsOwnRequest_of_noForeignLookup (own : engine.NoForeignLookup calls) :
    engine.HitsOwnRequest calls := by
  intro before call after split outcome cache answer hit
  obtain ⟨past, earlier, between, stored, rfl, stores, flagged, live, none⟩ :=
    hit_of_storedLast answer hit
  have same := own past earlier between call after stored split stores none live
  exact ⟨past, earlier, between, stored, rfl, stores, flagged, live, same⟩

theorem OneRequest.noForeignLookup {calls : List (RepairCall F64 F32 Html)}
    (one : engine.OneRequest calls) : engine.NoForeignLookup calls := by
  intro past earlier between call after stored split _ _ _
  have first : earlier ∈ calls := by simp [split]
  have second : call ∈ calls := by simp [split]
  exact one earlier first call second

/-- Requests are not mixed exactly when there is only one; hits alone stay with their request also
where no call finds what was stored for another. -/
theorem neverMixes_iff :
    (engine.NeverMixes calls ↔ engine.OneRequest calls) ∧
      (engine.NoForeignLookup calls → engine.HitsOwnRequest calls) := by
  refine ⟨⟨?_, ?_⟩, engine.hitsOwnRequest_of_noForeignLookup calls⟩
  · intro ⟨_, keys, hashes⟩ call inside other member
    refine ⟨(keys call inside other member rfl).1, ?_⟩
    by_contra apart
    exact hashes call inside other member apart rfl
  · intro one
    refine ⟨engine.hitsOwnRequest_of_noForeignLookup calls one.noForeignLookup, ?_, ?_⟩
    · intro call inside other member _
      exact ⟨(one call inside other member).1, rfl⟩
    · intro call inside other member apart
      exact absurd (one call inside other member).2 apart

/-- A tier 1 engine that suggests a mark on the selector that has failed. -/
def marking : AdaptiveSelectorEngine Nat Nat String where
  scores := ⟨0, fun a b => a < b, fun a b => a ≤ b, fun a b => a ≤ b, id⟩
  parseDocument html := html
  inspect _ := ⟨∅, [], []⟩
  suggest _ failedSelector := [⟨failedSelector ++ "-x", 92⟩]
  hasSemanticProvider := false
  options := ⟨85, 75, 1800, 10000⟩

/-- The selector is repaired at this moment. -/
def repairAt (now : Nat) (selector : String) : RepairCall Nat Nat String where
  request := .repairTier1 "<p></p>" selector
  around := { lookedUpAt := now, evictedAt := now, storedAt := now, permit := true,
              findSemanticMatch := fun _ => .ok none, tier2LatencyMs := 0 }

/-- The repair of one selector is returned for another. -/
theorem title_gets_price :
    ¬ ∀ (engine : AdaptiveSelectorEngine Nat Nat String) (calls : List (RepairCall Nat Nat String)),
      engine.NeverMixes calls := by
  intro claim
  have hits := (claim marking [repairAt 0 ".price", repairAt 1 ".title"]).1
  let price : AdaptiveRepairOutcome Nat Nat := .repaired ⟨".price-x", 92⟩ (tier1Trace 92)
  have cached : marking.cacheAfter [repairAt 0 ".price"] = [(slotKey, ⟨price, 1800⟩)] := rfl
  have found : cacheGet [(slotKey, (⟨price, 1800⟩ : CachedEntry Nat Nat))] slotKey 1 = some price := by
    simp [cacheGet, rowAt]
  have answer : marking.perform (marking.cacheAfter [repairAt 0 ".price"]) (repairAt 1 ".title") =
      (some price.flagged, [(slotKey, ⟨price, 1800⟩)]) := by
    have held : cachedOutcome [(slotKey, ⟨price, 1800⟩)]
        (cacheKey ".title" (structuralHash (marking.inspect "<p></p>").tagCounts))
        (repairAt 1 ".title").around.lookedUpAt = some price.flagged :=
      congrArg (Option.map AdaptiveRepairOutcome.flagged) found
    have whole : marking.perform [(slotKey, ⟨price, 1800⟩)] (repairAt 1 ".title") =
      marking.repairTier1 (repairAt 1 ".title").around [(slotKey, ⟨price, 1800⟩)] "<p></p>"
        ".title" := rfl
    rw [cached, whole]
    simp only [repairTier1, held]
  obtain ⟨past, earlier, between, stored, split, -, -, -, same, -⟩ :=
    hits [repairAt 0 ".price"] (repairAt 1 ".title") [] rfl _ _ answer rfl
  have only : earlier = repairAt 0 ".price" := by
    have member : earlier ∈ [repairAt 0 ".price"] := by simp [split]
    exact List.mem_singleton.mp member
  rw [only] at same
  revert same
  decide

end AdaptiveSelectorEngine

end Webfang
