import Webfang.Export.CommitSession

/-!
# The export loop

`process_single_item` and `process_results` for the JSONL format.  What the surroundings
answer while an item is processed (the clock, the exporter, the two store saves, the
cancellation token) is one `ItemEnv`.  A call answers the durable effects it performed in
program order.
-/

namespace Webfang

/-! ## Items and their validation -/

/-- `ValidUrl`: the text of a parsed URL, never blank. -/
structure ValidUrl where
  str : String
  meaningful : isBlank str = false

/-- The fields of `ScrapedContent` the export phase reads. -/
structure ScrapedContent where
  title : String
  content : String
  url : ValidUrl
  excerpt : Option String := none
  author : Option String := none
  date : Option String := none

/-- `entities::ValidationError`; a `ValidUrl` rules the URL variant out. -/
inductive ValidationError
  | emptyContent
  | emptyTitle
  | invalidMetadata (message : String)
  deriving DecidableEq, Repr

def ValidationError.toString : ValidationError → String
  | .emptyContent => "empty_content"
  | .emptyTitle => "empty_title"
  | .invalidMetadata message => "invalid_metadata: " ++ message

/-- `DocumentChunk`: the fields validation and the exporter read.  The `domain` entry of
the metadata is the host of the URL, never blank, and is left out. -/
structure DocumentChunk where
  url : String
  title : String
  content : String
  metadata : List (String × String)

/-- `DocumentChunk<Validated>`. -/
structure DocumentChunkValidated extends DocumentChunk where
  content_meaningful : isBlank content = false
  title_meaningful : isBlank title = false
  metadata_meaningful : ∀ entry ∈ metadata, isBlank entry.2 = false

/-- `DocumentChunk::from_scraped_content`. -/
def DocumentChunk.fromScrapedContent (scraped : ScrapedContent) : DocumentChunk where
  url := scraped.url.str
  title := scraped.title
  content := scraped.content
  metadata :=
    (scraped.excerpt.map ("excerpt", ·)).toList ++ (scraped.author.map ("author", ·)).toList ++
      (scraped.date.map ("date", ·)).toList

/-- `DocumentChunk<Draft>::validate`. -/
def DocumentChunk.validate (chunk : DocumentChunk) :
    Except ValidationError DocumentChunkValidated :=
  if content : isBlank chunk.content then
    .error .emptyContent
  else if title : isBlank chunk.title then
    .error .emptyTitle
  else
    match found : chunk.metadata.find? (fun entry => isBlank entry.2) with
    | some (key, _) =>
        .error (.invalidMetadata ("metadata key '" ++ key ++ "' has empty value"))
    | none =>
        .ok { chunk with
              content_meaningful := by simpa using content
              title_meaningful := by simpa using title
              metadata_meaningful := by simpa using found }

/-- Validation moves every field over unchanged. -/
theorem DocumentChunk.toDocumentChunk_of_validate {chunk : DocumentChunk}
    {validated : DocumentChunkValidated} (ok : chunk.validate = .ok validated) :
    validated.toDocumentChunk = chunk := by
  unfold DocumentChunk.validate at ok
  split at ok
  · cases ok
  · split at ok
    · cases ok
    · split at ok
      · cases ok
      · cases ok
        rfl

/-- `exporter::ExporterError`; wrapped errors are their texts. -/
inductive ExporterError
  | directoryCreation (source : String)
  | writeError (message : String)
  | invalidConfig (message : String)
  | serialization (source : String)
  | batchError (message : String)
  | unsupportedFormat (message : String)
  | stateStore (source : String)
  | dimensionMismatch (expected actual : Nat)
  deriving DecidableEq, Repr

def ExporterError.toString : ExporterError → String
  | .directoryCreation source => "failed to create output directory: " ++ source
  | .writeError message => "write error: " ++ message
  | .invalidConfig message => "invalid config: " ++ message
  | .serialization source => "serialization error: " ++ source
  | .batchError message => "batch error: " ++ message
  | .unsupportedFormat message => "unsupported format: " ++ message
  | .stateStore source => "state store error: " ++ source
  | .dimensionMismatch expected actual =>
      "dimension mismatch: expected " ++ Nat.repr expected ++ ", got " ++ Nat.repr actual

/-- `classify_export_failure`. -/
def classifyExportFailure : ExporterError → ErrorClass
  | .serialization _ | .invalidConfig _ => .domainRecoverable
  | _ => .internalFatal

/-! ## One item -/

/-- What an exporter that answered Err left behind in the file. -/
inductive Residue
  /-- no byte of the file changed -/
  | untouched
  /-- its session opened and cut an earlier torn tail -/
  | recovered
  /-- its write stopped inside the line: before the newline only, or earlier -/
  | torn (whole utf8 : Bool)
  deriving DecidableEq, Repr

/-- The exporter's answer for one document. -/
inductive ExportAnswer
  | ok
  | err (error : ExporterError) (residue : Residue)
  deriving DecidableEq

/-- What the surroundings answer while one item is processed. -/
structure ItemEnv where
  /-- the reading of `now_millis` -/
  now : Int
  answer : ExportAnswer
  /-- whether the EXPORTED (or the failure) save and the COMMITTED save succeed -/
  saves : Bool × Bool
  cancelled : Bool

/-- `SingleItemOutcome`. -/
inductive SingleItemOutcome
  | driven
  | skipped
  | cancelled
  deriving DecidableEq, Repr

/-- The line `JsonlExporter::serialize_line` writes for a document. -/
def ExportKeys.serializeLine (keys : ExportKeys) (chunk : DocumentChunkValidated) : ExportLine where
  url := some chunk.url
  checksumSha256 := some (keys.sha256Hex chunk.content)

/-- The durable trace of an exporter that answered Err. -/
def Residue.effects (line : ExportLine) : Residue → List Effect
  | .untouched => []
  | .recovered => [.tear none]
  | .torn whole utf8 => [.tear (some (if whole then line else ⟨none, none, utf8⟩))]

section Keys

variable (keys : ExportKeys)

/-- The tail of `process_single_item` once the gate answered `DriveAndCommit`. -/
def CommitSession.driveAndCommit (s : CommitSession) (result : ScrapedContent)
    (outputPath runId : String) (env : ItemEnv) :
    CommitSession × List Effect × SingleItemOutcome :=
  let url := result.url.str
  match (DocumentChunk.fromScrapedContent result).validate with
  | .error e =>
      let err := ExporterError.invalidConfig e.toString
      let (s, effects) :=
        s.failItem keys url (classifyExportFailure err) err.toString env.now env.saves.1
      (s, effects, .skipped)
  | .ok validated =>
      match env.answer with
      | .ok =>
          let (s, effects) := s.commitItem keys url (keys.sha256Hex result.content) outputPath
            runId env.now env.saves
          (s, .append (keys.serializeLine validated) :: effects,
            if env.cancelled then .cancelled else .driven)
      | .err e residue =>
          let (s, effects) :=
            s.failItem keys url (classifyExportFailure e) e.toString env.now env.saves.1
          (s, residue.effects (keys.serializeLine validated) ++ effects,
            if env.cancelled then .cancelled else .skipped)

/-- `process_single_item`. -/
def processSingleItem (s : CommitSession) (result : ScrapedContent)
    (outputPath runId : String) (env : ItemEnv) :
    CommitSession × List Effect × SingleItemOutcome :=
  let url := result.url.str
  let contentHash := keys.sha256Hex result.content
  match s.claimAppend url contentHash with
  | (s, false) => (s, [], .skipped)
  | (s, true) =>
      match s.decide keys url (some contentHash) with
      | .alreadyCommitted => (s, [], .skipped)
      | .promoteFromFlushProof =>
          let (s, effects) :=
            s.promoteFromFlushProof keys url outputPath contentHash env.now env.saves
          (s, effects, if env.cancelled then .cancelled else .driven)
      | .driveAndCommit => s.driveAndCommit keys result outputPath runId env

/-! ## The whole call -/

/-- The loop of `process_results`: the session at its end, the effects, and the URLs
counted as processed.  An item whose outcome is `Cancelled` ends it. -/
def processItems (outputPath runId : String) :
    CommitSession → List (ScrapedContent × ItemEnv) → CommitSession × List Effect × List String
  | s, [] => (s, [], [])
  | s, (result, env) :: rest =>
      match processSingleItem keys s result outputPath runId env with
      | (s, effects, .cancelled) => (s, effects, [])
      | (s, effects, outcome) =>
          let (s, later, processedUrls) := processItems outputPath runId s rest
          (s, effects ++ later,
            if outcome = .driven then result.url.str :: processedUrls else processedUrls)

/-- What is durable between two calls: the output file and the record store. -/
structure World where
  file : OutputFile
  store : DomainRecords

/-- What one durable step does to the world.  An Ok of the exporter means its session cut
any torn tail before the line. -/
def World.apply (w : World) : Effect → World
  | .append line => { w with file := ⟨w.file.lines ++ [line], none⟩ }
  | .tear tail => { w with file.tail := tail }
  | .persist records saved =>
      if saved then { w with store := mergePersist records w.store } else w

/-- One call of `process_results` with its surroundings. -/
structure ExportRun where
  ctx : Option ResumeContext
  /-- `RunId::new()` for a call without a context -/
  fallbackRunId : String
  outputPath : String
  /-- whether `load_preserving` could read the store -/
  loaded : Bool
  items : List (ScrapedContent × ItemEnv)
  /-- whether the save of `final_persist` succeeds -/
  finalSave : Bool

/-- `run_id` of the call. -/
def ExportRun.runId (run : ExportRun) : String :=
  (run.ctx.map (·.runId)).getD run.fallbackRunId

/-- What `load_preserving` hands to the session: nothing when the store is unreadable. -/
def World.loadPreserving (w : World) (loaded : Bool) : DomainRecords :=
  if loaded then validateAndQuarantine w.store else ∅

/-- The session `process_results` opens. -/
def ExportRun.openSession (run : ExportRun) (w : World) : CommitSession :=
  .open run.ctx (w.loadPreserving run.loaded) w.file

/-- `process_results`: its durable effects and its answer. -/
def processResults (run : ExportRun) (w : World) : List Effect × List String :=
  let (s, effects, processedUrls) :=
    processItems keys run.outputPath run.runId (run.openSession w) run.items
  (effects ++ s.save run.finalSave, processedUrls)

/-- The world a completed call leaves. -/
def World.afterRun (w : World) (run : ExportRun) : World :=
  (processResults keys run w).1.foldl World.apply w

end Keys

/-! ## Surroundings of the concrete runs -/

/-- Keys that change nothing: every text is its own canonical form and its own digest. -/
def plainKeys : ExportKeys := ⟨id, id⟩

/-- A page with this URL and content. -/
def pageOf (url content : String) (meaningful : isBlank url = false) : ScrapedContent where
  title := "t"
  content := content
  url := ⟨url, meaningful⟩

/-- Surroundings in which everything succeeds. -/
def fine (now : Int) : ItemEnv := ⟨now, .ok, (true, true), false⟩

end Webfang
