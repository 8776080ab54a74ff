import Mathlib.Data.UInt
import Std.Data.ExtTreeMap
import Webfang.Lib.KeyedRows

/-!
# Repairing a selector

`application/adaptive_engine`: a selector that has failed on a document is repaired from lexical
suggestions (tier 1) or from a semantic match (tier 2), and the outcome is cached under a hash of
the selector and of the document's tag counts.
-/

namespace Webfang

open KeyedRows

/-! ## The hasher -/

/-- `FnvHasher` -/
structure FnvHasher where
  finish : UInt64 := 0

namespace FnvHasher

/-- FNV-1a, from the offset basis on. -/
def fnv (bytes : List UInt8) : UInt64 :=
  bytes.foldl (fun h b => (h ^^^ b.toUInt64) * 0x100000001b3) 0xcbf29ce484222325

/-- What the hasher held before is dropped. -/
def write (_ : FnvHasher) (bytes : List UInt8) : FnvHasher := ⟨fnv bytes⟩

/-- The bytes of a `str` and then one `0xff`. -/
def writeStr (hasher : FnvHasher) (text : String) : FnvHasher :=
  (hasher.write text.toUTF8.data.toList).write [0xff]

/-- The eight bytes of a `u64`, the least significant first. -/
def writeU64 (hasher : FnvHasher) (n : UInt64) : FnvHasher :=
  hasher.write ((List.range 8).map fun i => (n >>> (8 * i).toUInt64).toUInt8)

end FnvHasher

/-- `tag_counts`, in the order of the tags. -/
abbrev TagCounts := Std.ExtTreeMap String Nat

/-- `structural_hash`, of the tag counts. -/
def structuralHash (tags : TagCounts) : UInt64 :=
  let combined := String.join (tags.toList.map fun (tag, count) => tag ++ ":" ++ toString count ++ ",")
  (FnvHasher.writeStr {} combined).finish

def cacheKey (selector : String) (structuralHash : UInt64) : UInt64 :=
  ((FnvHasher.writeStr {} selector).writeU64 structuralHash).finish

/-! ## The data of a repair -/

section Data

variable (F64 F32 : Type)

/-- What the engine does with the numbers of a score. -/
structure Scores where
  zero : F64
  lt : F64 → F64 → Bool
  le : F64 → F64 → Bool
  leConfidence : F32 → F32 → Bool
  ofConfidence : F32 → F64

structure DomStructureReport where
  tagCounts : TagCounts
  commonClasses : List (String × Nat)
  commonIds : List (String × Nat)

structure SelectorSuggestion where
  selector : String
  score : F64
  deriving DecidableEq, Repr

structure SemanticMatch where
  selector : String
  confidence : F32
  deriving DecidableEq, Repr

structure SemanticContext where
  targetText : String
  domFragments : List String
  domainHint : Option String
  deriving DecidableEq, Repr

structure RepairFailureDiagnostic where
  tier1Best : Option (SelectorSuggestion F64)
  tier2Best : Option (SemanticMatch F32)
  candidatesEvaluated : Nat
  structuralHash : UInt64
  deriving DecidableEq, Repr

inductive SelectorErrorKind
  | repairInconclusive (diagnostic : RepairFailureDiagnostic F64 F32)
  | blockingTaskFailed (message : String)
  deriving DecidableEq, Repr

inductive RepairStatus
  | repaired
  | degraded
  deriving DecidableEq, Repr

structure CascadeTrace where
  tier1Score : F64
  tier2Score : Option F32
  tier2LatencyMs : Nat
  cacheHit : Bool
  deriving DecidableEq, Repr

structure AdaptiveRepairOutcome where
  suggestion : SelectorSuggestion F64
  status : RepairStatus
  trace : Option (CascadeTrace F64 F32)
  deriving DecidableEq, Repr

structure AdaptiveSelectorOptions where
  lexicalThreshold : F64
  semanticThreshold : F32
  cacheTtl : Nat
  maxCacheEntries : Nat

structure CachedEntry where
  outcome : AdaptiveRepairOutcome F64 F32
  expiresAt : Nat

/-- The cache, a table with the hashes as its keys. -/
abbrev RepairCache := List (UInt64 × CachedEntry F64 F32)

/-- What is outside a call: the clock, the blocking tasks, the permits and the semantic inspector. -/
structure Surroundings where
  lookedUpAt : Nat
  evictedAt : Nat
  storedAt : Nat
  hashTask : Except String Unit := .ok ()
  suggestionTask : Except String Unit := .ok ()
  fragmentTask : Except String Unit := .ok ()
  permit : Bool
  findSemanticMatch : SemanticContext →
    Except (SelectorErrorKind F64 F32) (Option (SemanticMatch F32))
  tier2LatencyMs : Nat

end Data

variable {F64 F32 Html : Type}

def AdaptiveRepairOutcome.repaired (suggestion : SelectorSuggestion F64)
    (trace : CascadeTrace F64 F32) : AdaptiveRepairOutcome F64 F32 :=
  ⟨suggestion, .repaired, some trace⟩

/-- The outcome with the flag `cache_hit`. -/
def AdaptiveRepairOutcome.flagged (outcome : AdaptiveRepairOutcome F64 F32) :
    AdaptiveRepairOutcome F64 F32 :=
  { outcome with trace := outcome.trace.map fun trace => { trace with cacheHit := true } }

def AdaptiveRepairOutcome.cacheHit (outcome : AdaptiveRepairOutcome F64 F32) : Bool :=
  match outcome.trace with
  | some trace => trace.cacheHit
  | none => false

/-- `AdaptiveSelectorEngine`, with the inspector and the parser that it is given. -/
structure AdaptiveSelectorEngine (F64 F32 Html : Type) where
  scores : Scores F64 F32
  parseDocument : String → Html
  inspect : Html → DomStructureReport
  suggest : Html → String → List (SelectorSuggestion F64)
  hasSemanticProvider : Bool
  options : AdaptiveSelectorOptions F64 F32

namespace AdaptiveSelectorEngine

variable (engine : AdaptiveSelectorEngine F64 F32 Html) (around : Surroundings F64 F32)
  (cache : RepairCache F64 F32)

/-! ## The cache -/

def cacheGet (key : UInt64) (now : Nat) : Option (AdaptiveRepairOutcome F64 F32) :=
  match rowAt Prod.fst cache key with
  | some (_, entry) => if now < entry.expiresAt then some entry.outcome else none
  | none => none

def cachedOutcome (key : UInt64) (now : Nat) : Option (AdaptiveRepairOutcome F64 F32) :=
  (cacheGet cache key now).map AdaptiveRepairOutcome.flagged

/-- Expired entries are dropped when the cache is full. -/
def cacheInsert (key : UInt64) (outcome : AdaptiveRepairOutcome F64 F32) : RepairCache F64 F32 :=
  let kept :=
    if engine.options.maxCacheEntries ≤ cache.length then
      cache.filter fun row => around.evictedAt < row.2.expiresAt
    else cache
  (kept.filter fun row => row.1 ≠ key) ++ [(key, ⟨outcome, around.storedAt + engine.options.cacheTtl⟩)]

/-! ## Tier 1 -/

/-- `max_by`: the last of the best. -/
def bestSuggestion : List (SelectorSuggestion F64) → Option (SelectorSuggestion F64)
  | [] => none
  | first :: rest => some (rest.foldl (fun best other =>
      if engine.scores.lt other.score best.score then best else other) first)

def tier1Trace (tier1Score : F64) : CascadeTrace F64 F32 where
  tier1Score := tier1Score
  tier2Score := none
  tier2LatencyMs := 0
  cacheHit := false

def bestTier1Suggestion (document : Html) (failedSelector : String) :
    Option (SelectorSuggestion F64) :=
  engine.bestSuggestion (engine.suggest document failedSelector)

def evaluateTier1Outcome (best : SelectorSuggestion F64) (key : UInt64) :
    Option (AdaptiveRepairOutcome F64 F32) × RepairCache F64 F32 :=
  if engine.scores.lt engine.options.lexicalThreshold best.score then
    let outcome := .repaired best (tier1Trace best.score)
    (some outcome, engine.cacheInsert around cache key outcome)
  else (none, cache)

def repairTier1 (document : Html) (failedSelector : String) :
    Option (AdaptiveRepairOutcome F64 F32) × RepairCache F64 F32 :=
  let key := cacheKey failedSelector (structuralHash (engine.inspect document).tagCounts)
  match cachedOutcome cache key around.lookedUpAt with
  | some outcome => (some outcome, cache)
  | none =>
      match engine.bestTier1Suggestion document failedSelector with
      | none => (none, cache)
      | some best => engine.evaluateTier1Outcome around cache best key

/-! ## The cascade -/

def tier1FastPath (bestTier1 : Option (SelectorSuggestion F64)) (tier1Score : F64) (key : UInt64) :
    Option (AdaptiveRepairOutcome F64 F32 × RepairCache F64 F32) :=
  match bestTier1 with
  | none => none
  | some best =>
      if engine.scores.le tier1Score engine.options.lexicalThreshold then none
      else
        let outcome := .repaired best (tier1Trace tier1Score)
        some (outcome, engine.cacheInsert around cache key outcome)

def handleTier1Only (bestTier1 : Option (SelectorSuggestion F64)) (tier1Score : F64)
    (structuralHash key : UInt64) :
    Except (SelectorErrorKind F64 F32) (AdaptiveRepairOutcome F64 F32) × RepairCache F64 F32 :=
  match bestTier1 with
  | some best =>
      let outcome := .repaired best (tier1Trace tier1Score)
      (.ok outcome, engine.cacheInsert around cache key outcome)
  | none => (.error (.repairInconclusive ⟨none, none, 0, structuralHash⟩), cache)

def tier2Success (semMatch : SemanticMatch F32) (tier1Score : F64) (key : UInt64) :
    AdaptiveRepairOutcome F64 F32 × RepairCache F64 F32 :=
  let outcome : AdaptiveRepairOutcome F64 F32 := {
    suggestion := ⟨semMatch.selector, engine.scores.ofConfidence semMatch.confidence⟩
    status :=
      if engine.scores.leConfidence engine.options.semanticThreshold semMatch.confidence then
        .repaired
      else .degraded
    trace := some {
      tier1Score := tier1Score
      tier2Score := some semMatch.confidence
      tier2LatencyMs := around.tier2LatencyMs
      cacheHit := false } }
  (outcome, engine.cacheInsert around cache key outcome)

def cascade (selector : String) (structuralHash : UInt64)
    (bestTier1 : Option (SelectorSuggestion F64)) (tier1Score : F64) (ctx : SemanticContext) :
    Except (SelectorErrorKind F64 F32) (AdaptiveRepairOutcome F64 F32) × RepairCache F64 F32 :=
  let key := cacheKey selector structuralHash
  match cachedOutcome cache key around.lookedUpAt with
  | some outcome => (.ok outcome, cache)
  | none =>
      match engine.tier1FastPath around cache bestTier1 tier1Score key with
      | some (outcome, cache') => (.ok outcome, cache')
      | none =>
          if !engine.hasSemanticProvider || !around.permit then
            engine.handleTier1Only around cache bestTier1 tier1Score structuralHash key
          else
            match around.findSemanticMatch ctx with
            | .ok (some semMatch) =>
                let (outcome, cache') := engine.tier2Success around cache semMatch tier1Score key
                (.ok outcome, cache')
            | .ok none | .error _ =>
                engine.handleTier1Only around cache bestTier1 tier1Score structuralHash key

def tier1Score (bestTier1 : Option (SelectorSuggestion F64)) : F64 :=
  match bestTier1 with
  | some best => best.score
  | none => engine.scores.zero

def extractDomFragments (document : Html) : List String :=
  let report := engine.inspect document
  report.commonClasses.map Prod.fst ++ report.commonIds.map Prod.fst

def repair (document : Html) (html failedSelector : String) (domain : Option String) :
    Except (SelectorErrorKind F64 F32) (AdaptiveRepairOutcome F64 F32) × RepairCache F64 F32 :=
  let bestTier1 := engine.bestTier1Suggestion document failedSelector
  engine.cascade around cache failedSelector (structuralHash (engine.inspect document).tagCounts)
    bestTier1 (engine.tier1Score bestTier1) ⟨html, engine.extractDomFragments document, domain⟩

def selectSyncAware (htmlRaw selector : String) (domain : Option String) :
    Except (SelectorErrorKind F64 F32) (AdaptiveRepairOutcome F64 F32) × RepairCache F64 F32 :=
  let document := engine.parseDocument htmlRaw
  match around.hashTask, around.suggestionTask, around.fragmentTask with
  | .error e, _, _ =>
      (.error (.blockingTaskFailed s!"tier1 structural hash task failed: {e}"), cache)
  | .ok (), .error e, _ =>
      (.error (.blockingTaskFailed s!"tier1 suggestion task failed: {e}"), cache)
  | .ok (), .ok (), .error e =>
      (.error (.blockingTaskFailed s!"dom fragment extraction task failed: {e}"), cache)
  | .ok (), .ok (), .ok () =>
      let bestTier1 := engine.bestTier1Suggestion document selector
      engine.cascade around cache selector (structuralHash (engine.inspect document).tagCounts)
        bestTier1 (engine.tier1Score bestTier1)
        ⟨htmlRaw, engine.extractDomFragments document, domain⟩

end AdaptiveSelectorEngine

end Webfang
