import Webfang.Export.ItemRoute

/-!
# The export of AI chunks

`process_results_with_chunks`: the resume gate decides every chunk up front, the chunks that drive
and validate go to `export_batch` in one call, and a loop over all the chunks commits them.  The
loop asks the decision only: a chunk that drives is committed whether it was exported or not.
-/

namespace Webfang

/-! ## Chunks -/

/-- Why `DocumentChunk::validate` refuses a chunk whose URL is any text. -/
inductive ChunkError
  | invalid (error : ValidationError)
  | invalidUrl (message : String)
  deriving DecidableEq, Repr

/-- `DocumentChunk::validate` with all its checks; `parseError` is the message of `Url::parse`. -/
def DocumentChunk.validateText (parseError : String → Option String) (chunk : DocumentChunk) :
    Except ChunkError DocumentChunkValidated :=
  if isBlank chunk.content then
    .error (.invalid .emptyContent)
  else if isBlank chunk.title then
    .error (.invalid .emptyTitle)
  else
    match parseError chunk.url with
    | some message => .error (.invalidUrl message)
    | none => chunk.validate.mapError .invalid

theorem DocumentChunk.toDocumentChunk_of_validateText {parseError : String → Option String}
    {chunk : DocumentChunk} {validated : DocumentChunkValidated}
    (ok : chunk.validateText parseError = .ok validated) : validated.toDocumentChunk = chunk := by
  unfold DocumentChunk.validateText at ok
  split at ok
  · cases ok
  · split at ok
    · cases ok
    · split at ok
      · cases ok
      · cases valid : chunk.validate with
        | error e =>
            rw [valid] at ok
            cases ok
        | ok v =>
            rw [valid] at ok
            cases ok
            exact DocumentChunk.toDocumentChunk_of_validate valid

/-- What the surroundings answer while one chunk is committed. -/
structure ChunkEnv where
  now : Int
  /-- whether the EXPORTED save and the COMMITTED save succeed -/
  saves : Bool × Bool
  cancelled : Bool

/-- One call of `process_results_with_chunks` with its surroundings. -/
structure ChunkRun where
  ctx : Option ResumeContext
  /-- `RunId::new()` for a call without a context -/
  fallbackRunId : String
  outputPath : String
  /-- whether `load_preserving` could read the store -/
  loaded : Bool
  chunks : List (DocumentChunk × ChunkEnv)
  /-- `create_dir_all` and `create_exporter` -/
  setup : Except ExporterError Unit
  /-- `Exporter::export_batch` -/
  exportBatch : List DocumentChunkValidated → Except ExporterError Unit
  /-- whether the save of `final_persist` succeeds -/
  finalSave : Bool

/-- What a call that answers Ok leaves and answers. -/
structure ChunkOutcome where
  session : CommitSession
  /-- the chunks it passed to `export_batch` -/
  batch : List DocumentChunkValidated
  effects : List Effect
  processedUrls : List String

section Keys

variable (keys : ExportKeys) (parseError : String → Option String)

/-- The decision of a chunk, by the session as it was opened. -/
def CommitSession.decideChunk (gate : CommitSession) (chunk : DocumentChunk) : ItemDecision :=
  gate.decide keys chunk.url (some (keys.sha256Hex chunk.content))

/-- `validated_chunks`; `driven` holds the URL and the content hash of those already taken. -/
def validatedChunks (gate : CommitSession) :
    Finset (String × String) → List DocumentChunk → List DocumentChunkValidated
  | _, [] => []
  | driven, chunk :: rest =>
      if gate.decideChunk keys chunk = .driveAndCommit then
        match chunk.validateText parseError with
        | .error _ => validatedChunks gate driven rest
        | .ok validated =>
            let pair := (validated.url, keys.sha256Hex chunk.content)
            if pair ∈ driven then validatedChunks gate driven rest
            else validated :: validatedChunks gate (insert pair driven) rest
      else validatedChunks gate driven rest

/-- The commit loop. -/
def commitChunks (gate : CommitSession) (outputPath runId : String) :
    CommitSession → List (DocumentChunk × ChunkEnv) → CommitSession × List Effect
  | s, [] => (s, [])
  | s, (chunk, env) :: rest =>
      let contentHash := keys.sha256Hex chunk.content
      match gate.decideChunk keys chunk with
      | .alreadyCommitted => commitChunks gate outputPath runId s rest
      | .promoteFromFlushProof =>
          let (s, effects) :=
            s.promoteFromFlushProof keys chunk.url outputPath contentHash env.now env.saves
          if env.cancelled then (s, effects)
          else
            let (s, later) := commitChunks gate outputPath runId s rest
            (s, effects ++ later)
      | .driveAndCommit =>
          let (s, effects) :=
            s.commitItem keys chunk.url contentHash outputPath runId env.now env.saves
          if env.cancelled then (s, effects)
          else
            let (s, later) := commitChunks gate outputPath runId s rest
            (s, effects ++ later)

/-- `run_id` of the call. -/
def ChunkRun.runId (run : ChunkRun) : String := (run.ctx.map (·.runId)).getD run.fallbackRunId

/-- The session the call opens. -/
def ChunkRun.openSession (run : ChunkRun) (w : World) : CommitSession :=
  .open run.ctx (w.loadPreserving run.loaded) w.file

/-- `process_results_with_chunks`. -/
def processResultsWithChunks (run : ChunkRun) (w : World) : Except ExporterError ChunkOutcome :=
  match run.setup with
  | .error e => .error e
  | .ok () =>
      let gate := run.openSession w
      let batch := validatedChunks keys parseError gate ∅ (run.chunks.map (·.1))
      match if batch.isEmpty then .ok () else run.exportBatch batch with
      | .error e => .error e
      | .ok () =>
          let (s, effects) := commitChunks keys gate run.outputPath run.runId gate run.chunks
          .ok
            { session := s
              batch
              effects := effects ++ s.save run.finalSave
              processedUrls := run.chunks.map (·.1.url) }

/-! ## The commits of the loop -/

/-- A commit through `DriveAndCommit`, with the session it finds. -/
structure CommitStep where
  session : CommitSession
  chunk : DocumentChunk
  env : ChunkEnv

/-- The commits that the loop makes through `DriveAndCommit`. -/
def commitSteps (gate : CommitSession) (outputPath runId : String) :
    CommitSession → List (DocumentChunk × ChunkEnv) → List CommitStep
  | _, [] => []
  | s, (chunk, env) :: rest =>
      let contentHash := keys.sha256Hex chunk.content
      match gate.decideChunk keys chunk with
      | .alreadyCommitted => commitSteps gate outputPath runId s rest
      | .promoteFromFlushProof =>
          let s := (s.promoteFromFlushProof keys chunk.url outputPath contentHash env.now
            env.saves).1
          if env.cancelled then [] else commitSteps gate outputPath runId s rest
      | .driveAndCommit =>
          let after := (s.commitItem keys chunk.url contentHash outputPath runId env.now
            env.saves).1
          ⟨s, chunk, env⟩ ::
            if env.cancelled then [] else commitSteps gate outputPath runId after rest

def ChunkRun.commitSteps (run : ChunkRun) (w : World) : List CommitStep :=
  Webfang.commitSteps keys (run.openSession w) run.outputPath run.runId (run.openSession w)
    run.chunks

/-- The slot of the chunk behind its commit. -/
def CommitStep.slot (step : CommitStep) (outputPath runId : String) : Option RawRecord :=
  (step.session.commitItem keys step.chunk.url (keys.sha256Hex step.chunk.content) outputPath runId
    step.env.now step.env.saves).1.records[keys.canonicalKey step.chunk.url]?

/-- A URL moves to COMMITTED only with the hash of a chunk of its own that validated and was passed
to `export_batch`, and only through a chunk that validates. -/
def OnlyExportedCommitted (run : ChunkRun) (w : World) (outcome : ChunkOutcome) : Prop :=
  ∀ step ∈ run.commitSteps keys w, ∀ record, step.slot keys run.outputPath run.runId = some record →
    record.status = .committed →
      (∃ chunk ∈ run.chunks.map (·.1), ∃ validated ∈ outcome.batch,
        chunk.validateText parseError = .ok validated ∧ chunk.url = step.chunk.url ∧
          record.contentHash = some (keys.sha256Hex chunk.content)) ∧
      (step.chunk.validateText parseError).isOk

/-- The record machine accepts what `commit_item` makes of the slot: the record it drives on has a
URL and a counter that does not wrap, or the fresh one has a URL and a key. -/
def CommitSession.Accepts (s : CommitSession) (url : String) : Prop :=
  match (s.records[keys.canonicalKey url]?).filter fun record => !record.status.claimsOutput with
  | some record => isBlank record.url = false ∧ 1 ≤ record.attempts + 1
  | none => isBlank url = false ∧ isBlank (keys.canonicalKey url) = false

variable {keys parseError}

/-- A driven record passes the commit point with its URL and counter alone. -/
theorem tryCommitExported_driven_isSome_iff {record : RawRecord} (status : record.status = .exported)
    (location : record.outputLocation.isSome) (hash : record.contentHash.isSome)
    (noError : record.lastError = none) :
    (tryCommitExported record).isSome ↔ isBlank record.url = false ∧ 1 ≤ record.attempts := by
  rw [tryCommitExported_isSome_iff]
  have table : record.validate .exported = .ok () := by
    rw [RawRecord.validate_eq_ok_iff]
    refine ⟨status, fun _ _ => ⟨location, hash⟩, fun other => ?_⟩
    cases other
  constructor
  · intro facts
    exact ⟨facts.2.1, facts.2.2.2.2⟩
  · intro facts
    exact ⟨status, facts.1, ⟨_, Stateful.reconcile_of_validate table⟩, noError, facts.2⟩

/-- What every driven record carries. -/
theorem drivenRecord_fields {found : Option RawRecord}
    {url key runId contentHash outputLocation : String} {now : Int} {record : RawRecord}
    (made : drivenRecord found url key runId contentHash outputLocation now = some record) :
    record.contentHash = some contentHash ∧ record.outputLocation = some outputLocation ∧
      record.lastError = none := by
  unfold drivenRecord at made
  dsimp only at made
  split at made
  · cases made
    exact ⟨rfl, rfl, rfl⟩
  · split at made
    · cases made
    · cases made
      exact ⟨rfl, rfl, rfl⟩

theorem CommitSession.accepts_iff {s : CommitSession} {url : String}
    (runId contentHash outputLocation : String) (now : Int) :
    s.Accepts keys url ↔
      ∃ exported, drivenRecord s.records[keys.canonicalKey url]? url (keys.canonicalKey url) runId
          contentHash outputLocation now = some exported ∧
        isBlank exported.url = false ∧ 1 ≤ exported.attempts := by
  unfold CommitSession.Accepts drivenRecord
  dsimp only
  cases (s.records[keys.canonicalKey url]?).filter fun record => !record.status.claimsOutput with
  | some record =>
      constructor
      · intro accepted
        exact ⟨_, rfl, accepted⟩
      · intro driven
        obtain ⟨exported, made, accepted⟩ := driven
        cases made
        exact accepted
  | none =>
      dsimp only
      constructor
      · intro meaningful
        rw [if_neg (by simp [meaningful.1, meaningful.2])]
        exact ⟨_, rfl, meaningful.1, (by decide : (1 : UInt32) ≤ 0 + 1)⟩
      · intro driven
        obtain ⟨exported, made, -, -⟩ := driven
        split at made
        · cases made
        · rename_i meaningful
          simpa using meaningful

theorem CommitStep.slot_eq (step : CommitStep) (outputPath runId : String) :
    step.slot keys outputPath runId =
      (drivenRecord step.session.records[keys.canonicalKey step.chunk.url]? step.chunk.url
        (keys.canonicalKey step.chunk.url) runId (keys.sha256Hex step.chunk.content) outputPath
        step.env.now).map fun exported => (tryCommitExported exported).getD exported := by
  unfold CommitStep.slot
  rw [CommitSession.commitItem_eq]
  cases drivenRecord step.session.records[keys.canonicalKey step.chunk.url]? step.chunk.url
      (keys.canonicalKey step.chunk.url) runId (keys.sha256Hex step.chunk.content) outputPath
      step.env.now with
  | none => exact (CommitSession.drop_records_getElem? ..).trans (if_pos rfl)
  | some exported => exact (CommitSession.settle_records_getElem? ..).trans (if_pos rfl)

/-- `commit_item` leaves a COMMITTED slot just where the machine accepts it. -/
theorem CommitStep.slot_committed_iff {step : CommitStep} {outputPath runId : String} :
    (∃ record, step.slot keys outputPath runId = some record ∧ record.status = .committed) ↔
      step.session.Accepts keys step.chunk.url := by
  rw [CommitSession.accepts_iff runId (keys.sha256Hex step.chunk.content) outputPath step.env.now,
    CommitStep.slot_eq]
  constructor
  · intro committed
    obtain ⟨record, settled, status⟩ := committed
    obtain ⟨exported, made, rfl⟩ := Option.map_eq_some_iff.mp settled
    obtain ⟨hash, location, noError⟩ := drivenRecord_fields made
    have active := drivenRecord_status made
    refine ⟨exported, made, (tryCommitExported_driven_isSome_iff active (by rw [location]; rfl)
      (by rw [hash]; rfl) noError).mp ?_⟩
    cases accepted : tryCommitExported exported with
    | none =>
        rw [accepted, Option.getD_none, active] at status
        cases status
    | some successor => rfl
  · intro driven
    obtain ⟨exported, made, meaningful⟩ := driven
    obtain ⟨hash, location, noError⟩ := drivenRecord_fields made
    have accepted := (tryCommitExported_driven_isSome_iff (drivenRecord_status made)
      (by rw [location]; rfl) (by rw [hash]; rfl) noError).mpr meaningful
    obtain ⟨successor, accepted⟩ := Option.isSome_iff_exists.mp accepted
    refine ⟨successor, by rw [made, Option.map_some, accepted, Option.getD_some], ?_⟩
    obtain ⟨-, rfl, -⟩ := tryCommitExported_eq_some.mp accepted
    rfl

/-- The slot has the hash of the chunk. -/
theorem CommitStep.slot_contentHash {step : CommitStep} {outputPath runId : String}
    {record : RawRecord} (settled : step.slot keys outputPath runId = some record) :
    record.contentHash = some (keys.sha256Hex step.chunk.content) := by
  rw [CommitStep.slot_eq] at settled
  obtain ⟨exported, made, rfl⟩ := Option.map_eq_some_iff.mp settled
  have hash := (drivenRecord_fields made).1
  cases accepted : tryCommitExported exported with
  | none => exact hash
  | some successor =>
      obtain ⟨-, rfl, -⟩ := tryCommitExported_eq_some.mp accepted
      exact hash

/-- The commits are of chunks that drive. -/
theorem mem_commitSteps {gate s : CommitSession} {outputPath runId : String}
    {chunks : List (DocumentChunk × ChunkEnv)} {step : CommitStep}
    (reached : step ∈ commitSteps keys gate outputPath runId s chunks) :
    step.chunk ∈ chunks.map (·.1) ∧ gate.decideChunk keys step.chunk = .driveAndCommit := by
  induction chunks generalizing s with
  | nil => cases reached
  | cons first rest ih =>
      obtain ⟨chunk, env⟩ := first
      have later {s : CommitSession}
          (reached : step ∈ if env.cancelled then [] else
            commitSteps keys gate outputPath runId s rest) :
          step.chunk ∈ ((chunk, env) :: rest).map (·.1) ∧
            gate.decideChunk keys step.chunk = .driveAndCommit := by
        split at reached
        · cases reached
        · exact (ih reached).imp_left (List.mem_cons_of_mem _)
      unfold commitSteps at reached
      dsimp only at reached
      split at reached
      · exact (ih reached).imp_left (List.mem_cons_of_mem _)
      · exact later reached
      · rename_i drives
        rcases List.mem_cons.mp reached with rfl | behind
        · exact ⟨List.mem_cons_self, drives⟩
        · exact later behind

/-- A chunk that drives and validates is passed on, or one of the same URL and hash before it. -/
theorem exists_validatedChunk {gate : CommitSession} (driven : Finset (String × String))
    {chunks : List DocumentChunk} {chunk : DocumentChunk} {validated : DocumentChunkValidated}
    (inside : chunk ∈ chunks) (drives : gate.decideChunk keys chunk = .driveAndCommit)
    (valid : chunk.validateText parseError = .ok validated) :
    (chunk.url, keys.sha256Hex chunk.content) ∈ driven ∨
      ∃ other ∈ chunks, ∃ taken ∈ validatedChunks keys parseError gate driven chunks,
        other.validateText parseError = .ok taken ∧ other.url = chunk.url ∧
          keys.sha256Hex other.content = keys.sha256Hex chunk.content := by
  induction chunks generalizing driven with
  | nil => cases inside
  | cons first rest ih =>
      have url {c : DocumentChunk} {v : DocumentChunkValidated}
          (ok : c.validateText parseError = .ok v) : v.url = c.url :=
        congrArg DocumentChunk.url (DocumentChunk.toDocumentChunk_of_validateText ok)
      rw [validatedChunks]
      rcases List.mem_cons.mp inside with rfl | behind
      · rw [if_pos drives, valid]
        dsimp only
        rw [url valid]
        split
        · rename_i taken
          exact .inl taken
        · exact .inr ⟨chunk, List.mem_cons_self, validated, List.mem_cons_self, valid, rfl, rfl⟩
      · have passed := ih driven behind
        have lift {list : List DocumentChunkValidated}
            (kept : ∀ taken ∈ validatedChunks keys parseError gate driven rest, taken ∈ list) :
            (chunk.url, keys.sha256Hex chunk.content) ∈ driven ∨
              ∃ other ∈ first :: rest, ∃ taken ∈ list,
                other.validateText parseError = .ok taken ∧ other.url = chunk.url ∧
                  keys.sha256Hex other.content = keys.sha256Hex chunk.content := by
          refine passed.imp_right fun found => ?_
          obtain ⟨other, member, taken, inBatch, facts⟩ := found
          exact ⟨other, List.mem_cons_of_mem _ member, taken, kept taken inBatch, facts⟩
        split
        · cases ok : first.validateText parseError with
          | error e => exact lift fun taken member => member
          | ok v =>
            dsimp only
            split
            · exact lift fun taken member => member
            · rcases ih (insert (v.url, keys.sha256Hex first.content) driven) behind with
                taken | ⟨other, member, taken, inBatch, facts⟩
              · rcases Finset.mem_insert.mp taken with same | before
                · obtain ⟨sameUrl, sameHash⟩ := Prod.mk.inj same
                  exact .inr ⟨first, List.mem_cons_self, v, List.mem_cons_self, ok,
                    (url ok).symm.trans sameUrl.symm, sameHash.symm⟩
                · exact .inl before
              · exact .inr ⟨other, List.mem_cons_of_mem _ member, taken,
                  List.mem_cons_of_mem _ inBatch, facts⟩
        · exact lift fun taken member => member

/-! ## What is committed -/

theorem batch_of_processResultsWithChunks {run : ChunkRun} {w : World} {outcome : ChunkOutcome}
    (ok : processResultsWithChunks keys parseError run w = .ok outcome) :
    outcome.batch = validatedChunks keys parseError (run.openSession w) ∅
      (run.chunks.map (·.1)) := by
  unfold processResultsWithChunks at ok
  split at ok
  · cases ok
  · dsimp only at ok
    split at ok
    · cases ok
    · cases ok
      rfl

/-- A call that answers Ok commits only what it exported just where every chunk that its loop drives
on a slot the machine accepts is one that validates. -/
theorem only_exported_committed_iff {run : ChunkRun} {w : World} {outcome : ChunkOutcome}
    (ok : processResultsWithChunks keys parseError run w = .ok outcome) :
    OnlyExportedCommitted keys parseError run w outcome ↔
      ∀ step ∈ run.commitSteps keys w, step.session.Accepts keys step.chunk.url →
        (step.chunk.validateText parseError).isOk := by
  constructor
  · intro only step reached accepted
    obtain ⟨record, settled, committed⟩ := CommitStep.slot_committed_iff.mpr accepted
    exact (only step reached record settled committed).2
  · intro validates step reached record settled committed
    have accepted := CommitStep.slot_committed_iff.mp ⟨record, settled, committed⟩
    have valid := validates step reached accepted
    refine ⟨?_, valid⟩
    obtain ⟨inside, drives⟩ := mem_commitSteps reached
    cases accepted : step.chunk.validateText parseError with
    | error e =>
        rw [accepted] at valid
        cases valid
    | ok validated =>
        rcases exists_validatedChunk ∅ inside drives accepted with
          taken | ⟨other, member, taken, inBatch, ok', sameUrl, sameHash⟩
        · exact absurd taken (Finset.notMem_empty _)
        · rw [← batch_of_processResultsWithChunks ok] at inBatch
          refine ⟨other, member, taken, inBatch, ok', sameUrl, ?_⟩
          rw [CommitStep.slot_contentHash settled, sameHash]

end Keys

/-! ## Two chunks -/

/-- A fresh resumable run over these chunks; every write succeeds. -/
def chunkRun (chunks : List DocumentChunk) : ChunkRun where
  ctx := some ⟨"run-1", true⟩
  fallbackRunId := "run-0"
  outputPath := "out/export.jsonl"
  loaded := true
  chunks := chunks.map fun chunk => (chunk, ⟨1000, (true, true), false⟩)
  setup := .ok ()
  exportBatch _ := .ok ()
  finalSave := true

def chunkOf (title content : String) : DocumentChunk := ⟨"https://a.com/x", title, content, []⟩

/-- A chunk with a title is exported and committed. -/
theorem titled_chunk_only_exported :
    ∃ outcome, processResultsWithChunks plainKeys (fun _ => none) (chunkRun [chunkOf "t" "text"])
        ⟨.empty, ∅⟩ = .ok outcome ∧
      OnlyExportedCommitted plainKeys (fun _ => none) (chunkRun [chunkOf "t" "text"])
        ⟨.empty, ∅⟩ outcome := by
  refine ⟨_, rfl, (only_exported_committed_iff rfl).mpr fun step reached _ => ?_⟩
  cases List.mem_singleton.mp reached
  rfl

/-- A chunk without a title is committed, with its hash, though nothing was exported. -/
theorem untitled_chunk_committed :
    ∃ outcome, processResultsWithChunks plainKeys (fun _ => none) (chunkRun [chunkOf "" "text"])
        ⟨.empty, ∅⟩ = .ok outcome ∧
      outcome.batch.length = 0 ∧
      (outcome.session.records["https://a.com/x"]?).map (fun r => (r.status, r.contentHash)) =
        some (.committed, some "text") ∧
      ¬ OnlyExportedCommitted plainKeys (fun _ => none) (chunkRun [chunkOf "" "text"])
        ⟨.empty, ∅⟩ outcome := by
  refine ⟨_, rfl, rfl, by decide +kernel, fun only => ?_⟩
  let step : CommitStep := ⟨(chunkRun [chunkOf "" "text"]).openSession ⟨.empty, ∅⟩,
    chunkOf "" "text", ⟨1000, (true, true), false⟩⟩
  have reached : step ∈ (chunkRun [chunkOf "" "text"]).commitSteps plainKeys ⟨.empty, ∅⟩ :=
    List.mem_singleton_self step
  have settles : (step.slot plainKeys "out/export.jsonl" "run-1").any (·.status = .committed) := by
    decide +kernel
  obtain ⟨record, settled, committed⟩ := (Option.any_eq_true _ _).mp settles
  have validates := (only step reached record settled (of_decide_eq_true committed)).2
  exact absurd validates (by decide)

end Webfang
