import Webfang.Domain.CommitPoint
import Webfang.Export.ProcessResults

/-!
# What the writers of a session do

Each of the three writers of a `CommitSession` rewrites one slot of the record map.  The
record it leaves there is a function of the record it found: `drivenRecord` for
`commit_item`, `promotedRecord` for `promote_from_flush_proof`, `failedRecord` for
`fail_item`.  The equations below say so once; no later proof unfolds a writer.
-/

namespace Webfang

/-! ## Records -/

/-- The record a fresh lifecycle starts from. -/
def freshRecord (url canonicalUrl runId : String) (now : Int) : RawRecord where
  url := url
  canonicalUrl := canonicalUrl
  runId := runId
  contentHash := none
  attempts := 0
  status := .discovered
  lastError := none
  outputLocation := none
  updatedAt := now

theorem RawRecord.newDiscovered_eq_ok_iff {url canonicalUrl runId : String} {now : Int}
    {record : RawRecord} :
    RawRecord.newDiscovered url canonicalUrl runId now = .ok record ↔
      (isBlank url = false ∧ isBlank canonicalUrl = false) ∧
        record = freshRecord url canonicalUrl runId now := by
  unfold RawRecord.newDiscovered
  cases isBlank url <;> cases isBlank canonicalUrl <;> simp [freshRecord, eq_comm]

/-- A fresh lifecycle is refused exactly for a blank identity. -/
theorem freshDiscovered_eq (url canonicalUrl runId : String) (now : Int) :
    freshDiscovered url canonicalUrl runId now =
      if isBlank url || isBlank canonicalUrl then none
      else some ⟨freshRecord url canonicalUrl runId now, rfl⟩ := by
  unfold freshDiscovered
  split
  · rename_i record made
    obtain ⟨⟨urlOk, keyOk⟩, rfl⟩ := RawRecord.newDiscovered_eq_ok_iff.mp made
    simp [urlOk, keyOk]
  · rename_i e refused
    unfold RawRecord.newDiscovered at refused
    cases urlBlank : isBlank url <;> cases keyBlank : isBlank canonicalUrl <;>
      simp [urlBlank, keyBlank] at refused ⊢

/-- Below EXPORTED the legal chain always reaches PROCESSED, keeping every other field. -/
theorem driveToProcessed_of_active {record : RawRecord}
    (active : record.status.claimsOutput = false) (runId : String) (now : Int) :
    driveToProcessed record runId now = some ⟨{ record with status := .processed }, rfl⟩ := by
  have valid := RawRecord.validate_of_active active
  unfold driveToProcessed
  cases status : record.status with
  | exported | committed => rw [status] at active; cases active
  | discovered | queued | fetching | fetched | extracted =>
      rw [status] at valid
      simp only [Stateful.reconcile_of_validate valid, Except.map]
      rfl
  | processed =>
      rw [status] at valid
      simp only [Stateful.reconcile_of_validate valid]
      congr
      cases record
      simp_all

/-- From an output-claiming status the chain restarts from a fresh lifecycle. -/
theorem driveToProcessed_of_claims {record : RawRecord}
    (claims : record.status.claimsOutput = true) (runId : String) (now : Int) :
    driveToProcessed record runId now =
      if isBlank record.url || isBlank record.canonicalUrl then none
      else
        some ⟨{ freshRecord record.url record.canonicalUrl runId now with
          status := .processed }, rfl⟩ := by
  unfold driveToProcessed
  cases status : record.status with
  | exported | committed =>
      simp only [freshDiscovered_eq]
      split <;> rfl
  | discovered | queued | fetching | fetched | extracted | processed =>
      rw [status] at claims
      cases claims

/-! ## The record each writer leaves -/

/-- The EXPORTED record `commit_item` checkpoints over the record it found. -/
def drivenRecord (found : Option RawRecord) (url key runId contentHash outputLocation : String)
    (now : Int) : Option RawRecord :=
  let stamp (base : RawRecord) : RawRecord :=
    { base with
      runId := runId
      contentHash := some contentHash
      outputLocation := some outputLocation
      attempts := base.attempts + 1
      status := .exported
      lastError := none
      updatedAt := now }
  match found.filter fun record => !record.status.claimsOutput with
  | some record => some (stamp record)
  | none =>
      if isBlank url || isBlank key then none else some (stamp (freshRecord url key runId now))

/-- The EXPORTED record a flush-proof promotion checkpoints over the record it found. -/
def promotedRecord (found : Option RawRecord) (url key runId contentHash outputLocation : String)
    (now : Int) : Option RawRecord :=
  let stamp (base : RawRecord) : RawRecord :=
    { base with
      attempts := base.attempts + 1
      status := .exported
      lastError := none
      updatedAt := now
      contentHash := some contentHash
      outputLocation := base.outputLocation.or (some outputLocation) }
  match found with
  | none =>
      if isBlank url || isBlank key then none else some (stamp (freshRecord url key runId now))
  | some record =>
      if record.status = .exported ∧ record.validate .exported = .ok () then
        some record
      else if record.status.claimsOutput = false then
        some (stamp record)
      else if isBlank record.url || isBlank record.canonicalUrl then
        none
      else
        let fresh := freshRecord record.url record.canonicalUrl runId now
        if record.status = .exported then
          some { fresh with status := .exported, contentHash := some contentHash }
        else
          some (stamp fresh)

/-- The record `fail_item` leaves over the record it found. -/
def failedRecord (found : Option RawRecord) (url key runId : String) (errorClass : ErrorClass)
    (message : String) (now : Int) : Option RawRecord :=
  match found with
  | some record => some (record.withFailure errorClass message now)
  | none =>
      if isBlank url || isBlank key then none
      else some ((freshRecord url key runId now).withFailure errorClass message now)

theorem drivenRecord_status {found : Option RawRecord}
    {url key runId contentHash outputLocation : String} {now : Int} {record : RawRecord}
    (made : drivenRecord found url key runId contentHash outputLocation now = some record) :
    record.status = .exported := by
  unfold drivenRecord at made
  dsimp only at made
  split at made
  · cases made
    rfl
  · split at made
    · cases made
    · cases made
      rfl

theorem promotedRecord_status {found : Option RawRecord}
    {url key runId contentHash outputLocation : String} {now : Int} {record : RawRecord}
    (made : promotedRecord found url key runId contentHash outputLocation now = some record) :
    record.status = .exported := by
  unfold promotedRecord at made
  dsimp only at made
  split at made
  · split at made
    · cases made
    · cases made
      rfl
  · split at made
    · rename_i kept
      cases made
      exact kept.1
    · split at made
      · cases made
        rfl
      · split at made
        · cases made
        · split at made
          · cases made
            rfl
          · cases made
            rfl

/-- A failure leaves the status where it was. -/
theorem failedRecord_status {found : Option RawRecord} {url key runId message : String}
    {errorClass : ErrorClass} {now : Int} {record : RawRecord}
    (made : failedRecord found url key runId errorClass message now = some record) :
    record.status = (found.map (·.status)).getD .discovered := by
  unfold failedRecord at made
  split at made
  · cases made
    rfl
  · split at made
    · cases made
    · cases made
      rfl

theorem driveToExportFlushed_map_record (record : RawRecord)
    (url key runId contentHash outputLocation : String) (now : Int) :
    (driveToExportFlushed record runId contentHash outputLocation now).map (·.record) =
      promotedRecord (some record) url key runId contentHash outputLocation now := by
  unfold driveToExportFlushed promotedRecord
  by_cases exported : record.status = .exported
  · have claims : record.status.claimsOutput = true := by rw [exported]; rfl
    cases table : record.validate .exported with
    | ok u => simp [Stateful.reconcile_of_validate table, exported, table]
    | error e =>
        simp only [Stateful.reconcile_of_invalid table, exported, table,
          driveToProcessed_of_claims claims]
        cases isBlank record.url || isBlank record.canonicalUrl <;>
          simp [Stateful.exportFlushed, Stateful.advance, freshRecord, PageStatus.claimsOutput]
  · cases claims : record.status.claimsOutput with
    | false =>
        rw [driveToProcessed_of_active claims]
        simp [exported, claims, Stateful.exportFlushed, Stateful.advance]
    | true =>
        rw [driveToProcessed_of_claims claims]
        cases blank : isBlank record.url || isBlank record.canonicalUrl <;>
          simp [exported, claims, blank, Stateful.exportFlushed, Stateful.advance]

/-! ## The store -/

/-- A load drops exactly the records that violate an invariant. -/
theorem validateAndQuarantine_getElem? (records : DomainRecords) (k : String) :
    (validateAndQuarantine records)[k]? =
      (records[k]?).filter fun record => (invariantViolation record).isNone :=
  Std.ExtTreeMap.getElem?_filter'

/-- A record a load hands out is the stored one, and valid. -/
theorem validateAndQuarantine_eq_some {records : DomainRecords} {k : String} {record : RawRecord} :
    (validateAndQuarantine records)[k]? = some record ↔
      records[k]? = some record ∧ record.Valid := by
  rw [validateAndQuarantine_getElem?, Option.filter_eq_some_iff, Option.isNone_iff_eq_none]
  rfl

/-- What a session's save leaves at a key. -/
theorem mergePersist_getElem? (mine stored : DomainRecords) (k : String) :
    (mergePersist mine stored)[k]? =
      KeyedMerge.mergedEntry (fun existing record => decide (existing.updatedAt > record.updatedAt))
        mine[k]? (validateAndQuarantine stored)[k]? :=
  KeyedMerge.getElem?_mergeInto ..

theorem allEntries_validateAndQuarantine {P : String → RawRecord → Prop} {records : DomainRecords}
    (all : KeyedMerge.AllEntries P records) :
    KeyedMerge.AllEntries P (validateAndQuarantine records) :=
  fun k record stored => all k record (validateAndQuarantine_eq_some.mp stored).1

theorem allEntries_mergePersist {P : String → RawRecord → Prop} {mine stored : DomainRecords}
    (left : KeyedMerge.AllEntries P mine) (right : KeyedMerge.AllEntries P stored) :
    KeyedMerge.AllEntries P (mergePersist mine stored) :=
  KeyedMerge.AllEntries.mergeInto left (allEntries_validateAndQuarantine right)

/-! ## Sessions -/

/-- Rewrite one slot of the record map. -/
def CommitSession.put (s : CommitSession) (key : String) (record : RawRecord) : CommitSession :=
  { s with records := s.records.insert key record }

/-- Empty one slot of the record map. -/
def CommitSession.drop (s : CommitSession) (key : String) : CommitSession :=
  { s with records := s.records.erase key }

/-- Checkpoint an EXPORTED record in its slot, then pass the commit point if the record
machine accepts it. -/
def CommitSession.settle (s : CommitSession) (key : String) (exported : RawRecord)
    (saves : Bool × Bool) : CommitSession × List Effect :=
  match tryCommitExported exported with
  | none => (s.put key exported, (s.put key exported).save saves.1)
  | some committed =>
      (s.put key committed, (s.put key exported).save saves.1 ++ (s.put key committed).save saves.2)

section Slots

variable (s : CommitSession) (key : String) (record : RawRecord)

@[simp] theorem CommitSession.put_ctx : (s.put key record).ctx = s.ctx := rfl
@[simp] theorem CommitSession.put_hashIndex : (s.put key record).hashIndex = s.hashIndex := rfl
@[simp] theorem CommitSession.put_driven : (s.put key record).driven = s.driven := rfl
@[simp] theorem CommitSession.drop_ctx : (s.drop key).ctx = s.ctx := rfl
@[simp] theorem CommitSession.drop_hashIndex : (s.drop key).hashIndex = s.hashIndex := rfl
@[simp] theorem CommitSession.drop_driven : (s.drop key).driven = s.driven := rfl

theorem CommitSession.put_records_getElem? (k : String) :
    (s.put key record).records[k]? = if key = k then some record else s.records[k]? :=
  KeyedMerge.getElem?_insert_of_eq

theorem CommitSession.drop_records_getElem? (k : String) :
    (s.drop key).records[k]? = if key = k then none else s.records[k]? :=
  KeyedMerge.getElem?_erase_of_eq

theorem CommitSession.drop_of_absent (absent : s.records[key]? = none) : s.drop key = s := by
  unfold CommitSession.drop
  congr 1
  ext k v
  rw [KeyedMerge.getElem?_erase_of_eq]
  split
  · rename_i same
    rw [← same, absent]
  · rfl

@[simp] theorem CommitSession.put_put (later : RawRecord) :
    (s.put key record).put key later = s.put key later := by
  unfold CommitSession.put
  congr 1
  ext k v
  simp only [KeyedMerge.getElem?_insert_of_eq]
  split <;> rfl

@[simp] theorem CommitSession.drop_put : (s.drop key).put key record = s.put key record := by
  unfold CommitSession.put CommitSession.drop
  congr 1
  ext k v
  simp only [KeyedMerge.getElem?_insert_of_eq, KeyedMerge.getElem?_erase_of_eq]
  split <;> rfl

end Slots

section Writers

variable (keys : ExportKeys) (s : CommitSession) (url contentHash outputLocation : String)
  (now : Int) (saves : Bool × Bool)

theorem CommitSession.commitPoint_put (exported : RawRecord) :
    (s.put (keys.canonicalKey url) exported).commitPoint keys url =
      match tryCommitExported exported with
      | none => (s.put (keys.canonicalKey url) exported, false)
      | some committed => (s.put (keys.canonicalKey url) committed, true) := by
  unfold CommitSession.commitPoint swapToCommitted
  simp only [CommitSession.put_records_getElem?, if_true, Option.bind_some]
  cases tryCommitExported exported with
  | none => rfl
  | some committed => exact congrArg (·, true) (CommitSession.put_put ..)

theorem CommitSession.checkpointAndCommit_put (exported : RawRecord) :
    (s.put (keys.canonicalKey url) exported).checkpointAndCommit keys url saves =
      s.settle (keys.canonicalKey url) exported saves := by
  unfold CommitSession.checkpointAndCommit CommitSession.settle
  rw [CommitSession.commitPoint_put]
  cases tryCommitExported exported with
  | none => simp
  | some committed => simp

/-- The in-memory half of `commit_item` leaves `drivenRecord` in its slot. -/
theorem CommitSession.driveToExported_eq (runId : String) :
    s.driveToExported keys runId url contentHash outputLocation now =
      match drivenRecord s.records[keys.canonicalKey url]? url (keys.canonicalKey url) runId
          contentHash outputLocation now with
      | none => (s.drop (keys.canonicalKey url), false)
      | some exported => (s.put (keys.canonicalKey url) exported, true) := by
  unfold CommitSession.driveToExported drivenRecord
  dsimp only
  cases existing : s.records[keys.canonicalKey url]?.filter
      fun record => !record.status.claimsOutput with
  | some record =>
      have active : record.status.claimsOutput = false := by
        simpa using (Option.filter_eq_some_iff.mp existing).2
      simp only [driveToProcessed_of_active active]
      exact congrArg (·, true) (CommitSession.drop_put ..)
  | none =>
      simp only [freshDiscovered_eq]
      cases blank : isBlank url || isBlank (keys.canonicalKey url) with
      | true => rfl
      | false => exact congrArg (·, true) (CommitSession.drop_put ..)

/-- The in-memory half of a promotion leaves `promotedRecord` in its slot. -/
theorem CommitSession.promoteToExported_eq (runId : String) :
    s.promoteToExported keys runId url outputLocation contentHash now =
      match promotedRecord s.records[keys.canonicalKey url]? url (keys.canonicalKey url) runId
          contentHash outputLocation now with
      | none => (s.drop (keys.canonicalKey url), false)
      | some exported => (s.put (keys.canonicalKey url) exported, true) := by
  unfold CommitSession.promoteToExported CommitSession.resolveFlushProofRecord
  dsimp only
  cases found : s.records[keys.canonicalKey url]? with
  | some record =>
      dsimp only
      rw [← driveToExportFlushed_map_record record url (keys.canonicalKey url)]
      cases driveToExportFlushed record runId contentHash outputLocation now with
      | none => rfl
      | some exported => exact congrArg (·, true) (CommitSession.drop_put ..)
  | none =>
      simp only [freshDiscovered_eq, promotedRecord]
      cases blank : isBlank url || isBlank (keys.canonicalKey url) with
      | true => exact congrArg (·, false) (CommitSession.drop_of_absent _ _ found).symm
      | false =>
          rfl

/-- `commit_item` leaves `drivenRecord` in its slot and settles it. -/
theorem CommitSession.commitItem_eq (runId : String) :
    s.commitItem keys url contentHash outputLocation runId now saves =
      match drivenRecord s.records[keys.canonicalKey url]? url (keys.canonicalKey url) runId
          contentHash outputLocation now with
      | none => (s.drop (keys.canonicalKey url), [])
      | some exported => s.settle (keys.canonicalKey url) exported saves := by
  unfold CommitSession.commitItem
  rw [CommitSession.driveToExported_eq]
  cases drivenRecord s.records[keys.canonicalKey url]? url (keys.canonicalKey url) runId
      contentHash outputLocation now with
  | none => rfl
  | some exported => exact CommitSession.checkpointAndCommit_put ..

/-- A promotion leaves `promotedRecord` in its slot and settles it. -/
theorem CommitSession.promoteFromFlushProof_eq {ctx : ResumeContext} (present : s.ctx = some ctx) :
    s.promoteFromFlushProof keys url outputLocation contentHash now saves =
      match promotedRecord s.records[keys.canonicalKey url]? url (keys.canonicalKey url) ctx.runId
          contentHash outputLocation now with
      | none => (s.drop (keys.canonicalKey url), [])
      | some exported => s.settle (keys.canonicalKey url) exported saves := by
  unfold CommitSession.promoteFromFlushProof
  simp only [present]
  rw [CommitSession.promoteToExported_eq]
  cases promotedRecord s.records[keys.canonicalKey url]? url (keys.canonicalKey url) ctx.runId
      contentHash outputLocation now with
  | none => rfl
  | some exported => exact CommitSession.checkpointAndCommit_put ..

/-- The in-memory half of `fail_item` leaves `failedRecord` in its slot. -/
theorem CommitSession.recordFailure_eq (errorClass : ErrorClass) (message runId : String) :
    s.recordFailure keys url errorClass message runId now =
      match failedRecord s.records[keys.canonicalKey url]? url (keys.canonicalKey url) runId
          errorClass message now with
      | none => (s, false)
      | some failed => (s.put (keys.canonicalKey url) failed, true) := by
  unfold CommitSession.recordFailure failedRecord
  dsimp only
  cases found : s.records[keys.canonicalKey url]? with
  | some record => rfl
  | none =>
      cases blank : isBlank url || isBlank (keys.canonicalKey url) with
      | true =>
          cases made : RawRecord.newDiscovered url (keys.canonicalKey url) runId now with
          | ok record =>
              have meaningful := (RawRecord.newDiscovered_eq_ok_iff.mp made).1
              simp [meaningful] at blank
          | error e => rfl
      | false =>
          simp only [Bool.or_eq_false_iff] at blank
          rw [RawRecord.newDiscovered_eq_ok_iff.mpr ⟨blank, rfl⟩]
          rfl

/-- `fail_item` leaves `failedRecord` in its slot and saves once. -/
theorem CommitSession.failItem_eq {ctx : ResumeContext} (present : s.ctx = some ctx)
    (errorClass : ErrorClass) (message : String) (saved : Bool) :
    s.failItem keys url errorClass message now saved =
      match failedRecord s.records[keys.canonicalKey url]? url (keys.canonicalKey url) ctx.runId
          errorClass message now with
      | none => (s, [])
      | some failed =>
          (s.put (keys.canonicalKey url) failed,
            (s.put (keys.canonicalKey url) failed).save saved) := by
  unfold CommitSession.failItem
  simp only [present]
  rw [CommitSession.recordFailure_eq]
  cases failedRecord s.records[keys.canonicalKey url]? url (keys.canonicalKey url) ctx.runId
      errorClass message now with
  | none => rfl
  | some failed => rfl

end Writers

end Webfang
