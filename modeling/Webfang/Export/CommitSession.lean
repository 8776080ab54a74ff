import Mathlib.Data.Finset.Basic
import Mathlib.Data.Finset.Dedup
import Webfang.Domain.Record

/-!
# The commit session

`application/export_factory.rs`, the session half: `CommitSession` with the resume gate
(`decide`) and its three writers (`failItem`, `commitItem`, `promoteFromFlushProof`).  A
writer returns the session after it together with the durable effects it performed, in
program order; a run of effects cut short is a process killed between two of them.
-/

namespace Webfang

/-- The two identities an item has: the record key and the content digest. -/
structure ExportKeys where
  /-- `resume::canonical_key` -/
  canonicalKey : String → String
  /-- lowercase hex SHA-256 -/
  sha256Hex : String → String

/-- What a reader recovers from one line of the JSONL output: the `url` and
`checksum_sha256` string fields, absent where the text is no JSON object carrying them. -/
structure ExportLine where
  url : Option String
  checksumSha256 : Option String
  utf8 : Bool := true
  deriving DecidableEq, Repr

/-- The JSONL output file: its newline-terminated lines and, after a torn write, the
unterminated bytes behind them. -/
structure OutputFile where
  lines : List ExportLine
  tail : Option ExportLine
  deriving DecidableEq, Repr

def OutputFile.empty : OutputFile := ⟨[], none⟩

/-- `build_content_hash_index`: the hashes on every line of the file, the unterminated one
included; nothing at all when the file is missing or is not valid UTF-8. -/
def buildContentHashIndex (file : OutputFile) : Finset String :=
  let texts := file.lines ++ file.tail.toList
  if texts.all (·.utf8) then (texts.filterMap (·.checksumSha256)).toFinset else ∅

/-! ## The record store -/

/-- `RecordStore::validate_and_quarantine`, the view a load hands out. -/
def validateAndQuarantine (records : DomainRecords) : DomainRecords :=
  (partitionValid records).1

/-- `CommitSession::merge_persist` inside `RecordStore::update`: reload under the lock,
then per URL the last writer wins, ties going to the session. -/
def mergePersist (mine stored : DomainRecords) : DomainRecords :=
  KeyedMerge.mergeInto (fun existing record => decide (existing.updatedAt > record.updatedAt))
    mine (validateAndQuarantine stored)

/-! ## The session -/

/-- `ResumeContext`: this run's identity and its skip policy.  The store, the token and
the observer are the environment's. -/
structure ResumeContext where
  runId : String
  resume : Bool
  deriving DecidableEq, Repr

/-- `ItemDecision`. -/
inductive ItemDecision
  | alreadyCommitted
  | promoteFromFlushProof
  | driveAndCommit
  deriving DecidableEq, Repr

structure CommitSession where
  ctx : Option ResumeContext
  records : DomainRecords
  hashIndex : Finset String
  driven : Finset (String × String)

/-- A step of the export phase against the disk. -/
inductive Effect
  /-- the exporter answered Ok: one line appended and flushed -/
  | append (line : ExportLine)
  /-- the exporter answered Err, leaving these unterminated bytes behind its last line -/
  | tear (tail : Option ExportLine)
  /-- `RecordStore::update` with this session's map, and whether it succeeded -/
  | persist (records : DomainRecords) (saved : Bool)

/-- `CommitSession::open`; `loaded` is what `load_preserving` answered. -/
def CommitSession.open (ctx : Option ResumeContext) (loaded : DomainRecords)
    (file : OutputFile) : CommitSession where
  ctx
  records := if ctx.isSome then loaded else ∅
  hashIndex := buildContentHashIndex file
  driven := ∅

/-- `merge_persist` of the whole map; a session without a store has nothing to save. -/
def CommitSession.save (s : CommitSession) (saved : Bool) : List Effect :=
  if s.ctx.isSome then [.persist s.records saved] else []

/-- `claim_append`: the flag says whether the pair is new in this run. -/
def CommitSession.claimAppend (s : CommitSession) (url contentHash : String) :
    CommitSession × Bool :=
  ({ s with driven := insert (url, contentHash) s.driven },
   decide ((url, contentHash) ∉ s.driven))

/-- `fresh_discovered`. -/
def freshDiscovered (url canonicalUrl runId : String) (now : Int) :
    Option (Stateful .discovered) :=
  match made : RawRecord.newDiscovered url canonicalUrl runId now with
  | .ok record => some ⟨record, by rw [(RawRecord.newDiscovered_eq_ok made).2]⟩
  | .error _ => none

/-- `drive_to_processed`: the legal chain from the recorded position, or a fresh lifecycle
when the record does not reconcile there. -/
def driveToProcessed (record : RawRecord) (runId : String) (now : Int) :
    Option (Stateful .processed) :=
  let result : Except ReconcileError (Stateful .processed) :=
    match record.status with
    | .discovered =>
        (Stateful.reconcile .discovered record).map
          (·.queue.startFetch.fetched.extracted.processed)
    | .queued =>
        (Stateful.reconcile .queued record).map (·.startFetch.fetched.extracted.processed)
    | .fetching =>
        (Stateful.reconcile .fetching record).map (·.fetched.extracted.processed)
    | .fetched => (Stateful.reconcile .fetched record).map (·.extracted.processed)
    | .extracted => (Stateful.reconcile .extracted record).map (·.processed)
    | .processed => Stateful.reconcile .processed record
    | .exported | .committed => .error (.statusMismatch .processed record.status)
  match result with
  | .ok processed => some processed
  | .error _ =>
      (freshDiscovered record.url record.canonicalUrl runId now).map
        (·.queue.startFetch.fetched.extracted.processed)

section Session

variable (keys : ExportKeys)

/-- `CommitSession::decide`, the resume gate. -/
def CommitSession.decide (s : CommitSession) (url : String) (freshHash : Option String) :
    ItemDecision :=
  match s.ctx with
  | none => .driveAndCommit
  | some ctx =>
      if !ctx.resume then
        .driveAndCommit
      else
        match s.records[keys.canonicalKey url]? with
        | some record =>
            if (Stateful.reconcile .committed record).isOk then
              .alreadyCommitted
            else if record.contentHash.any (· ∈ s.hashIndex) then
              .promoteFromFlushProof
            else
              .driveAndCommit
        -- no record: the previous run may have died before persisting any
        | none =>
            if freshHash.any (· ∈ s.hashIndex) then .promoteFromFlushProof else .driveAndCommit

/-- `resolve_flush_proof_record`: take the record out of the map, or start a fresh one. -/
def CommitSession.resolveFlushProofRecord (s : CommitSession) (url key runId : String)
    (now : Int) : CommitSession × Option RawRecord :=
  match s.records[key]? with
  | some record => ({ s with records := s.records.erase key }, some record)
  | none => (s, (freshDiscovered url key runId now).map (·.record))

/-- `drive_to_export_flushed`: EXPORTED records keep their content hash, lower ones are
stamped with the item's. -/
def driveToExportFlushed (record : RawRecord) (runId contentHash outputLocation : String)
    (now : Int) : Option (Stateful .exported) :=
  if record.status = .exported then
    match Stateful.reconcile .exported record with
    | .ok exported => some exported
    | .error _ =>
        (driveToProcessed record runId now).map fun processed =>
          Stateful.exportFlushed
            ⟨{ processed.record with updatedAt := now, contentHash := some contentHash },
              processed.status_eq⟩
  else
    (driveToProcessed record runId now).map fun processed =>
      Stateful.exportFlushed
        ⟨{ processed.record with
            attempts := processed.record.attempts + 1
            lastError := none
            updatedAt := now
            contentHash := some contentHash
            outputLocation := processed.record.outputLocation.or (some outputLocation) },
          processed.status_eq⟩

/-- The in-memory half of `promote_from_flush_proof`, up to the EXPORTED checkpoint; the
flag says whether the promotion goes on. -/
def CommitSession.promoteToExported (s : CommitSession)
    (runId url outputLocation contentHash : String) (now : Int) : CommitSession × Bool :=
  let key := keys.canonicalKey url
  match s.resolveFlushProofRecord url key runId now with
  | (s, none) => (s, false)
  | (s, some record) =>
      match driveToExportFlushed record runId contentHash outputLocation now with
      | none => (s, false)
      | some exported => ({ s with records := s.records.insert key exported.record }, true)

/-- The in-memory half of `commit_item`, up to the EXPORTED checkpoint. -/
def CommitSession.driveToExported (s : CommitSession)
    (runId url contentHash outputLocation : String) (now : Int) : CommitSession × Bool :=
  let key := keys.canonicalKey url
  let existing := (s.records[key]?).filter fun record => !record.status.claimsOutput
  let s := { s with records := s.records.erase key }
  let driven : Option (Stateful .processed) :=
    match existing with
    | some record => driveToProcessed record runId now
    | none =>
        (freshDiscovered url key runId now).map
          (·.queue.startFetch.fetched.extracted.processed)
  match driven with
  | none => (s, false)
  | some processed =>
      let exported := Stateful.exportFlushed
        ⟨{ processed.record with
            runId := runId
            contentHash := some contentHash
            outputLocation := some outputLocation
            attempts := processed.record.attempts + 1
            lastError := none
            updatedAt := now },
          processed.status_eq⟩
      ({ s with records := s.records.insert key exported.record }, true)

/-- The commit point: swap the checkpointed slot in memory. -/
def CommitSession.commitPoint (s : CommitSession) (url : String) : CommitSession × Bool :=
  let (records, swapped) := swapToCommitted s.records (keys.canonicalKey url)
  ({ s with records }, swapped)

/-- The two saves around the commit point, and the swap between them. -/
def CommitSession.checkpointAndCommit (s : CommitSession) (url : String)
    (saves : Bool × Bool) : CommitSession × List Effect :=
  let (committed, swapped) := s.commitPoint keys url
  (committed, s.save saves.1 ++ if swapped then committed.save saves.2 else [])

/-- `CommitSession::promote_from_flush_proof`. -/
def CommitSession.promoteFromFlushProof (s : CommitSession)
    (url outputLocation contentHash : String) (now : Int) (saves : Bool × Bool) :
    CommitSession × List Effect :=
  match s.ctx with
  | none => (s, [])
  | some ctx =>
      match s.promoteToExported keys ctx.runId url outputLocation contentHash now with
      | (s, false) => (s, [])
      | (s, true) => s.checkpointAndCommit keys url saves

/-- `CommitSession::commit_item`. -/
def CommitSession.commitItem (s : CommitSession) (url contentHash outputLocation runId : String)
    (now : Int) (saves : Bool × Bool) : CommitSession × List Effect :=
  match s.driveToExported keys runId url contentHash outputLocation now with
  | (s, false) => (s, [])
  | (s, true) => s.checkpointAndCommit keys url saves

/-- The record `fail_item` writes over `record`. -/
def RawRecord.withFailure (record : RawRecord) (errorClass : ErrorClass) (message : String)
    (now : Int) : RawRecord :=
  { record with
    attempts := record.attempts + 1
    lastError := some { errorClass, message }
    updatedAt := now }

/-- The in-memory half of `fail_item`; the flag says whether it saves. -/
def CommitSession.recordFailure (s : CommitSession) (url : String) (errorClass : ErrorClass)
    (message runId : String) (now : Int) : CommitSession × Bool :=
  let key := keys.canonicalKey url
  match s.records[key]? with
  | some record =>
      ({ s with records := s.records.insert key (record.withFailure errorClass message now) },
        true)
  | none =>
      match RawRecord.newDiscovered url key runId now with
      | .error _ => (s, false)
      | .ok record =>
          ({ s with
              records := s.records.insert key (record.withFailure errorClass message now) },
            true)

/-- `CommitSession::fail_item`. -/
def CommitSession.failItem (s : CommitSession) (url : String) (errorClass : ErrorClass)
    (message : String) (now : Int) (saved : Bool) : CommitSession × List Effect :=
  match s.ctx with
  | none => (s, [])
  | some ctx =>
      match s.recordFailure keys url errorClass message ctx.runId now with
      | (s, false) => (s, [])
      | (s, true) => (s, s.save saved)

end Session

end Webfang
