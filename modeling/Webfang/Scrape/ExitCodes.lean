import Mathlib.Data.List.Basic

/-!
# Errors and exit codes

`error.rs`, `cli/error.rs` and `report_phase` of `cli/orchestrator.rs`: the class of an error, and
the exit code of a run by the errors of its pages.
-/

namespace Webfang.ScrapeRun

/-! ## Errors -/

inductive ErrorClass
  | transientRetriable
  | transientBackoff
  | permanentFatal
  | domainRecoverable
  | internalFatal
  deriving DecidableEq, Repr

inductive ErrorKind
  | interrupted
  | wouldBlock
  | timedOut
  /-- any other kind, by its name -/
  | other (name : String)
  deriving DecidableEq, Repr

structure IoError where
  kind : ErrorKind
  message : String
  deriving DecidableEq, Repr

def ErrorKind.isTransient : ErrorKind → Bool
  | interrupted | wouldBlock | timedOut => true
  | other _ => false

/-- A boxed error, with what `is_transient_network` finds in its chain of sources. -/
structure BoxedError where
  message : String
  isTransientNetwork : Bool
  deriving DecidableEq, Repr

inductive ResourceKind
  | ramBudget
  | sitemapUrls
  | sitemapDepth
  deriving DecidableEq, Repr

inductive ScraperError
  | invalidUrl (message : String)
  | http (status : Nat) (url : String)
  | readability (message : String)
  | io (error : IoError)
  | network (source : BoxedError)
  | middleware (message : String)
  | serialization (message : String)
  | yaml (message : String)
  | urlParse (message : String)
  | extraction (message : String)
  /-- with the class of the cause where that is a `DownloadError` -/
  | download (source : BoxedError) (typed : Option ErrorClass)
  | config (message : String)
  | featureGated (message : String)
  | wafBlocked (url provider : String)
  | validation (message : String)
  | conversion (message : String)
  | exportFailed (message : String)
  | extractionFailed (url reason : String)
  | exportBatch (message : String)
  | globalTimeout
  | slowlorisTimeout
  | payloadTooLarge
  | semaphoreInanition
  | persistence (message : String)
  | ingestion (message : String)
  /-- of a chunk, a text, a download or a cache; otherwise of the model -/
  | semantic (recoverable : Bool) (message : String)
  | h2Config (message : String)
  | internal (message : String)
  | rateLimited (retryAfter : Nat)
  | crawlLimit (message : String)
  | resourceExhausted (resource : ResourceKind) (limit actual : Nat)
  | sitemapEmpty
  | sitemapNotFound (url : String)
  deriving DecidableEq, Repr

namespace ScraperError

def classify : ScraperError → ErrorClass
  | download source typed =>
      typed.getD (if source.isTransientNetwork then .transientRetriable else .internalFatal)
  | network source => if source.isTransientNetwork then .transientRetriable else .internalFatal
  | http status _ =>
      if 500 ≤ status then .transientRetriable
      else if status = 429 then .transientBackoff
      else .permanentFatal
  | globalTimeout | slowlorisTimeout | rateLimited _ => .transientBackoff
  | invalidUrl _ | wafBlocked .. | readability _ | extraction _ | extractionFailed ..
  | validation _ | featureGated _ | config _ | payloadTooLarge => .permanentFatal
  | io error => if error.kind.isTransient then .transientRetriable else .permanentFatal
  | semaphoreInanition | serialization _ | yaml _ | urlParse _ | persistence _ | ingestion _
  | middleware _ | h2Config _ | exportFailed _ | exportBatch _ | conversion _ | internal _ =>
      .internalFatal
  | semantic recoverable _ => if recoverable then .domainRecoverable else .internalFatal
  | resourceExhausted .ramBudget _ _ => .transientBackoff
  | crawlLimit _ | resourceExhausted .. | sitemapEmpty | sitemapNotFound _ => .domainRecoverable

def isInternalFatal (e : ScraperError) : Bool := e.classify = .internalFatal

def isExtractionFailed : ScraperError → Bool
  | extractionFailed .. => true
  | _ => false

/-- An I/O error of a kind that does not go away. -/
def permanentIo : ScraperError → Option IoError
  | io error => if error.kind.isTransient then none else some error
  | _ => none

end ScraperError

/-! ## Exits -/

inductive CliExit
  | success
  | usageError (message : String)
  | dataFormatError (message : String)
  | networkError (message : String)
  | ioError (message : String)
  | protocolError (message : String)
  | forbidden (message : String)
  | configError (message : String)
  | emptyDiscovery (message : String)
  | scraperFailure (message : String)
  | partialSuccess (success failed : Nat)
  deriving DecidableEq, Repr

/-- `Termination::report`. -/
def CliExit.report : CliExit → Nat
  | success => 0
  | usageError _ => 64
  | dataFormatError _ => 65
  | networkError _ => 69
  | ioError _ => 74
  | protocolError _ => 76
  | forbidden _ => 77
  | configError _ => 78
  | emptyDiscovery _ => 2
  | scraperFailure _ => 3
  | partialSuccess .. => 69

def forbiddenExitWhenAllBlocked (resultsLen failuresLen blocked : Nat) : Option CliExit :=
  if resultsLen = 0 ∧ failuresLen = 0 ∧ 0 < blocked then
    some (.forbidden s!"{blocked} URL(s) bloqueadas por robots.txt. Usa --ignore-robots para omitir esta verificación.")
  else none

abbrev Failures := List (String × ScraperError)

def scraperFailureExitWhenInternalFatal (failures : Failures) : Option CliExit :=
  let internalFatal := (failures.filter fun failure => failure.2.isInternalFatal).length
  if 0 < internalFatal then
    some (.scraperFailure s!"Scraper failure: {internalFatal} internal error(s) out of {failures.length} URLs")
  else none

def permanentIoErrorForFailures (failures : Failures) : Option CliExit :=
  failures.findSome? fun failure =>
    failure.2.permanentIo.map fun error => .ioError error.message

def dataFormatErrorExitWhenExtractionFailed (failures : Failures) : Option CliExit :=
  let extractionFailed := (failures.filter fun failure => failure.2.isExtractionFailed).length
  if 0 < extractionFailed then
    some (.dataFormatError s!"extracción sin contenido útil: {extractionFailed} URL(s) devolvieron contenido insuficiente o requieren renderizado de JavaScript")
  else none

def noPages : CliExit := .networkError "No pages were successfully scraped"

/-- `none` where the exit is left to the export. -/
def reportPhase (resultsLen : Nat) (failures : Failures) (blocked : Nat) : Option CliExit :=
  if failures ≠ [] ∧ resultsLen ≠ 0 then some (.partialSuccess resultsLen failures.length)
  else
    match forbiddenExitWhenAllBlocked resultsLen failures.length blocked with
    | some exit => some exit
    | none =>
        if resultsLen = 0 then
          ((scraperFailureExitWhenInternalFatal failures).or
            ((permanentIoErrorForFailures failures).or
              (dataFormatErrorExitWhenExtractionFailed failures))).or (some noPages)
        else none

/-- The end of `run`, behind the scrape phase and the export of its results. -/
def runExit (ingestion : Except String Unit) (cancelled : Bool) (resultsLen : Nat)
    (failures : Failures) (blocked : Nat) (exportExit : CliExit) : CliExit :=
  match ingestion with
  | .error e => .ioError s!"Falló la ingesta de vectores: {e}"
  | .ok () =>
      if cancelled then .success
      else (reportPhase resultsLen failures blocked).getD exportExit

/-! ## What a run without pages exits with -/

section Report

variable {failures : Failures} {blocked resultsLen : Nat}

theorem filter_length_pos {α : Type} {p : α → Bool} {xs : List α} :
    0 < (xs.filter p).length ↔ ∃ x ∈ xs, p x = true := by
  rw [List.length_pos_iff_exists_mem]
  simp only [List.mem_filter]

theorem report_internalFatal (some_ : ∃ failure ∈ failures, failure.2.isInternalFatal = true) :
    ((reportPhase 0 failures blocked).map CliExit.report) = some 3 := by
  have positive := filter_length_pos.mpr some_
  have failed : failures.length ≠ 0 := by
    obtain ⟨failure, member, -⟩ := some_
    exact Nat.ne_of_gt (List.length_pos_of_mem member)
  rw [reportPhase, if_neg (fun both => both.2 rfl), forbiddenExitWhenAllBlocked,
    if_neg (fun all => failed all.2.1)]
  simp only [if_true, scraperFailureExitWhenInternalFatal, if_pos positive, Option.some_or,
    Option.map_some, CliExit.report]

theorem scraperFailure_eq_none (none_ : ∀ failure ∈ failures, failure.2.isInternalFatal = false) :
    scraperFailureExitWhenInternalFatal failures = none := by
  have zero : ¬ 0 < (failures.filter fun failure => failure.2.isInternalFatal).length := by
    rw [filter_length_pos]
    intro ⟨failure, member, fatal⟩
    rw [none_ failure member] at fatal
    cases fatal
  rw [scraperFailureExitWhenInternalFatal]
  simp only [if_neg zero]

/-- Without internal errors, a permanent I/O error decides; then a page without content. -/
theorem report_failed (failed : failures ≠ [])
    (none_ : ∀ failure ∈ failures, failure.2.isInternalFatal = false) :
    (reportPhase 0 failures blocked).map CliExit.report = some (
      if failures.any (·.2.permanentIo.isSome) then 74
      else if failures.any (·.2.isExtractionFailed) then 65 else 69) := by
  have some_ : failures.length ≠ 0 := fun zero => failed (List.length_eq_zero_iff.mp zero)
  rw [reportPhase, if_neg (fun both => both.2 rfl), forbiddenExitWhenAllBlocked,
    if_neg (fun all => some_ all.2.1)]
  simp only [if_true, scraperFailure_eq_none none_, Option.none_or]
  by_cases permanent : failures.any (·.2.permanentIo.isSome) = true
  · obtain ⟨failure, member, has⟩ := List.any_eq_true.mp permanent
    have found : (permanentIoErrorForFailures failures).isSome := by
      rw [permanentIoErrorForFailures, List.isSome_findSome?]
      refine List.any_eq_true.mpr ⟨failure, member, ?_⟩
      rw [Option.isSome_map]
      exact has
    obtain ⟨exit, same⟩ := Option.isSome_iff_exists.mp found
    have kind : exit.report = 74 := by
      obtain ⟨other, -, made⟩ := List.exists_of_findSome?_eq_some same
      obtain ⟨error, -, rfl⟩ := Option.map_eq_some_iff.mp made
      rfl
    rw [same, if_pos permanent, Option.some_or, Option.some_or, Option.map_some, kind]
  · have absent : permanentIoErrorForFailures failures = none := by
      rw [permanentIoErrorForFailures, List.findSome?_eq_none_iff]
      intro failure member
      rw [Option.map_eq_none_iff]
      cases io : failure.2.permanentIo with
      | none => rfl
      | some error =>
          exact absurd (List.any_eq_true.mpr ⟨failure, member, by rw [io]; rfl⟩) permanent
    rw [absent, if_neg permanent, Option.none_or, dataFormatErrorExitWhenExtractionFailed]
    by_cases empty : failures.any (·.2.isExtractionFailed) = true
    · have positive := filter_length_pos.mpr (List.any_eq_true.mp empty)
      rw [if_pos empty, if_pos positive]
      rfl
    · have zero : ¬ 0 < (failures.filter fun failure => failure.2.isExtractionFailed).length :=
        fun positive => empty (List.any_eq_true.mpr (filter_length_pos.mp positive))
      rw [if_neg empty, if_neg zero]
      rfl

theorem report_blocked : (reportPhase 0 [] blocked).map CliExit.report =
    some (if 0 < blocked then 77 else 69) := by
  by_cases some_ : 0 < blocked
  · rw [if_pos some_, reportPhase, if_neg (fun both => both.1 rfl), forbiddenExitWhenAllBlocked,
      if_pos ⟨rfl, rfl, some_⟩]
    rfl
  · rw [if_neg some_, reportPhase, if_neg (fun both => both.1 rfl), forbiddenExitWhenAllBlocked,
      if_neg (fun all => some_ all.2.2)]
    rfl

theorem reportPhase_eq_none_iff :
    reportPhase resultsLen failures blocked = none ↔ failures = [] ∧ resultsLen ≠ 0 := by
  rw [reportPhase]
  constructor
  · intro left
    split at left
    · cases left
    next whole =>
        cases forbidden : forbiddenExitWhenAllBlocked resultsLen failures.length blocked with
        | some exit =>
            rw [forbidden] at left
            cases left
        | none =>
            rw [forbidden] at left
            dsimp only at left
            split at left
            · simp at left
            next pages =>
                refine ⟨?_, pages⟩
                by_contra failed
                exact whole ⟨failed, pages⟩
  · intro ⟨clean, pages⟩
    rw [if_neg (fun both => both.1 clean), forbiddenExitWhenAllBlocked,
      if_neg (fun all => pages all.1)]
    simp only [if_neg pages]

end Report

end Webfang.ScrapeRun
