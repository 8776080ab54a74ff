import Webfang.Lib.KeyedMerge

/-!
# Persisted page records and their lifecycle

`domain/page_state` and the record part of `domain/persistence`: the eight-state page
lifecycle, the nine-field `RawRecord`, and the two layers over it.  `validate` is the
load-time invariant table; `Stateful s` is a record proven to stand at `s`, and only the
legal transitions produce one.
-/

namespace Webfang

/-- Rust's `char::is_whitespace`: the Unicode `White_Space` property. -/
def isWhitespace (c : Char) : Bool :=
  let v := c.val
  (0x09 ≤ v && v ≤ 0x0D) || v == 0x20 || v == 0x85 || v == 0xA0 || v == 0x1680 ||
    (0x2000 ≤ v && v ≤ 0x200A) || v == 0x2028 || v == 0x2029 || v == 0x202F ||
    v == 0x205F || v == 0x3000

/-- `s.trim().is_empty()`. -/
def isBlank (s : String) : Bool := s.toList.all isWhitespace

/-- `page_state::PageStatus`, in lifecycle order. -/
inductive PageStatus
  | discovered
  | queued
  | fetching
  | fetched
  | extracted
  | processed
  | exported
  | committed
  deriving DecidableEq, Repr

/-- The two statuses that claim flushed output. -/
def PageStatus.claimsOutput : PageStatus → Bool
  | .exported | .committed => true
  | _ => false

/-- `error::ErrorClass`. -/
inductive ErrorClass
  | transientRetriable
  | transientBackoff
  | permanentFatal
  | internalFatal
  | domainRecoverable
  deriving DecidableEq, Repr

/-- A classified error attached to a persisted record. -/
structure LastError where
  errorClass : ErrorClass
  message : String
  deriving DecidableEq, Repr

/-- The persisted per-URL record.  `attempts` is the source's `u32`, whose `+= 1` wraps
in a release build. -/
structure RawRecord where
  url : String
  canonicalUrl : String
  runId : String
  contentHash : Option String
  attempts : UInt32
  status : PageStatus
  lastError : Option LastError
  outputLocation : Option String
  updatedAt : Int
  deriving DecidableEq, Repr

/-- `MIGRATED_V1_RUN_ID`. -/
def migratedV1RunId : String := "migrated-v1"

def RawRecord.isMigratedV1 (record : RawRecord) : Bool :=
  record.runId == migratedV1RunId

/-- Records keyed by canonical URL (the source's `BTreeMap`). -/
abbrev DomainRecords := Std.ExtTreeMap String RawRecord compare

/-- `RecordStoreError::InvalidRecord`, the one error a record constructor raises. -/
inductive RecordStoreError
  | invalidRecord (reason : String)
  deriving DecidableEq, Repr

/-- `RawRecord::new_discovered`: the validated constructor of a fresh lifecycle. -/
def RawRecord.newDiscovered (url canonicalUrl runId : String) (updatedAt : Int) :
    Except RecordStoreError RawRecord :=
  if isBlank url then
    .error (.invalidRecord "url must not be empty")
  else if isBlank canonicalUrl then
    .error (.invalidRecord "canonical_url must not be empty")
  else
    .ok { url, canonicalUrl, runId, contentHash := none, attempts := 0
          status := .discovered, lastError := none, outputLocation := none, updatedAt }

theorem RawRecord.newDiscovered_eq_ok {url canonicalUrl runId : String} {updatedAt : Int}
    {record : RawRecord}
    (made : RawRecord.newDiscovered url canonicalUrl runId updatedAt = .ok record) :
    isBlank url = false ∧ record =
      { url, canonicalUrl, runId, contentHash := none, attempts := 0
        status := .discovered, lastError := none, outputLocation := none, updatedAt } := by
  unfold RawRecord.newDiscovered at made
  split at made
  · cases made
  · rename_i meaningful
    split at made
    · cases made
    · cases made
      exact ⟨by simpa using meaningful, rfl⟩

/-! ## Load-time reconciliation -/

/-- `page_state::ReconcileError`. -/
inductive ReconcileError
  | statusMismatch (expected found : PageStatus)
  | missingOutputLocation (status : PageStatus)
  | missingContentHash (status : PageStatus)
  | committedWithLastError
  | committedWithZeroAttempts
  deriving DecidableEq, Repr

/-- `reconcile::validate`: the invariant table between disk truth and the typed machine. -/
def RawRecord.validate (record : RawRecord) (target : PageStatus) :
    Except ReconcileError Unit :=
  if record.status ≠ target then
    .error (.statusMismatch target record.status)
  else if target.claimsOutput && !record.isMigratedV1 && record.outputLocation.isNone then
    .error (.missingOutputLocation target)
  else if target.claimsOutput && !record.isMigratedV1 && record.contentHash.isNone then
    .error (.missingContentHash target)
  else if target = .committed && record.lastError.isSome then
    .error .committedWithLastError
  else if target = .committed && record.attempts < 1 then
    .error .committedWithZeroAttempts
  else
    .ok ()

theorem RawRecord.status_of_validate {record : RawRecord} {target : PageStatus}
    (valid : record.validate target = .ok ()) : record.status = target := by
  unfold RawRecord.validate at valid
  split at valid
  · cases valid
  · rename_i same
    exact not_not.mp same

/-- A record whose lifecycle position is known by construction. -/
structure Stateful (s : PageStatus) where
  record : RawRecord
  status_eq : record.status = s

/-- `Stateful::reconcile`: rebuild the typed state after validating the table. -/
def Stateful.reconcile (target : PageStatus) (record : RawRecord) :
    Except ReconcileError (Stateful target) :=
  match valid : record.validate target with
  | .ok () => .ok ⟨record, record.status_of_validate valid⟩
  | .error e => .error e

/-- `Stateful::advance`: the persisted status moves with the type. -/
def Stateful.advance {s : PageStatus} (t : PageStatus) (x : Stateful s) : Stateful t :=
  ⟨{ x.record with status := t }, rfl⟩

namespace Stateful

def queue (x : Stateful .discovered) : Stateful .queued := x.advance .queued
def startFetch (x : Stateful .queued) : Stateful .fetching := x.advance .fetching
def fetched (x : Stateful .fetching) : Stateful .fetched := x.advance .fetched
def extracted (x : Stateful .fetched) : Stateful .extracted := x.advance .extracted
def processed (x : Stateful .extracted) : Stateful .processed := x.advance .processed

/-- The output path is recorded on the record by the caller, not by the move. -/
def exportFlushed (x : Stateful .processed) : Stateful .exported := x.advance .exported
def commit (x : Stateful .exported) : Stateful .committed := x.advance .committed

end Stateful

theorem Stateful.reconcile_of_validate {record : RawRecord} {target : PageStatus}
    (valid : record.validate target = .ok ()) :
    Stateful.reconcile target record = .ok ⟨record, record.status_of_validate valid⟩ := by
  unfold Stateful.reconcile
  split
  · rfl
  · rename_i e failed
    rw [failed] at valid
    cases valid

theorem Stateful.reconcile_of_invalid {record : RawRecord} {target : PageStatus}
    {e : ReconcileError} (invalid : record.validate target = .error e) :
    Stateful.reconcile target record = .error e := by
  unfold Stateful.reconcile
  split
  · rename_i valid
    rw [invalid] at valid
    cases valid
  · rename_i e' failed
    rw [invalid] at failed
    cases failed
    rfl

theorem Stateful.record_of_reconcile {record : RawRecord} {target : PageStatus}
    {x : Stateful target} (rebuilt : Stateful.reconcile target record = .ok x) :
    x.record = record ∧ record.validate target = .ok () := by
  cases valid : record.validate target with
  | ok u =>
      rw [Stateful.reconcile_of_validate valid] at rebuilt
      cases rebuilt
      exact ⟨rfl, rfl⟩
  | error e =>
      rw [Stateful.reconcile_of_invalid valid] at rebuilt
      cases rebuilt

/-- Below EXPORTED the table asks for nothing but the matching status. -/
theorem RawRecord.validate_of_active {record : RawRecord}
    (active : record.status.claimsOutput = false) : record.validate record.status = .ok () := by
  have notCommitted : record.status ≠ .committed := by
    intro committed
    rw [committed] at active
    cases active
  simp [RawRecord.validate, active, notCommitted]

/-! ## The record transition machine -/

/-- `record_transition::invariant_violation`: the first violated invariant, if any. -/
def invariantViolation (record : RawRecord) : Option String :=
  if isBlank record.url then
    some "url must not be empty"
  else if record.status.claimsOutput && !record.isMigratedV1 &&
      (record.outputLocation.isNone || record.contentHash.isNone) then
    some "exported/committed requires output_location and content_hash"
  else if record.status = .committed && record.lastError.isSome then
    some "committed must not carry last_error"
  else if record.status = .committed && record.attempts < 1 then
    some "committed requires attempts >= 1"
  else
    none

/-- One dropped record, with the invariant it violates. -/
structure QuarantinedEntry where
  url : String
  invariant : String
  deriving DecidableEq, Repr

/-- `record_transition::partition_valid`: the kept records, and the dropped ones in map order. -/
def partitionValid (records : DomainRecords) : DomainRecords × List QuarantinedEntry :=
  (records.filter fun _ record => (invariantViolation record).isNone,
   records.toList.filterMap fun entry =>
     (invariantViolation entry.2).map fun invariant => ⟨entry.2.url, invariant⟩)

/-- `record_transition::try_commit_exported`: the COMMITTED successor, or a rejection. -/
def tryCommitExported (current : RawRecord) : Option RawRecord :=
  if isBlank current.url || current.status ≠ .exported then
    none
  else
    match Stateful.reconcile .exported current with
    | .error _ => none
    | .ok exported =>
        let candidate := exported.commit.record
        if (invariantViolation candidate).isNone then some candidate else none

/-- `record_transition::swap_to_committed`: commit the slot under `key` if the machine
accepts it; the flag says whether it did. -/
def swapToCommitted (records : DomainRecords) (key : String) : DomainRecords × Bool :=
  match (records[key]?).bind tryCommitExported with
  | none => (records, false)
  | some committed => (records.insert key committed, true)

/-- A record the next load keeps. -/
def RawRecord.Valid (record : RawRecord) : Prop := invariantViolation record = none

instance (record : RawRecord) : Decidable record.Valid :=
  inferInstanceAs (Decidable (invariantViolation record = none))

section Committed

variable {record : RawRecord}
  (sound : record.status = .committed → record.lastError = none ∧ 1 ≤ record.attempts)
include sound

theorem RawRecord.not_committed_failed :
    ¬ (decide (record.status = .committed) && record.lastError.isSome) = true := by
  intro failed
  simp only [Bool.and_eq_true, decide_eq_true_eq] at failed
  rw [(sound failed.1).1] at failed
  cases failed.2

theorem RawRecord.not_committed_unattempted :
    ¬ (decide (record.status = .committed) && decide (record.attempts < 1)) = true := by
  intro small
  simp only [Bool.and_eq_true, decide_eq_true_eq] at small
  exact absurd small.2 (UInt32.not_lt.mpr (sound small.1).2)

end Committed

/-- The invariant table as a conjunction. -/
theorem RawRecord.valid_iff {record : RawRecord} :
    record.Valid ↔
      isBlank record.url = false ∧
      (record.status.claimsOutput = true → record.isMigratedV1 = false →
        record.outputLocation.isSome ∧ record.contentHash.isSome) ∧
      (record.status = .committed → record.lastError = none ∧ 1 ≤ record.attempts) := by
  unfold RawRecord.Valid invariantViolation
  constructor
  · intro none
    split at none
    · cases none
    · rename_i meaningful
      split at none
      · cases none
      · rename_i output
        split at none
        · cases none
        · rename_i noError
          split at none
          · cases none
          · rename_i attempted
            refine ⟨by simpa using meaningful, fun claims fresh => ?_, fun committed => ?_⟩
            · simp only [claims, fresh, Bool.not_false, Bool.and_self, Bool.true_and,
                Bool.or_eq_true, Option.isNone_iff_eq_none, not_or] at output
              exact ⟨Option.isSome_iff_ne_none.mpr output.1, Option.isSome_iff_ne_none.mpr output.2⟩
            · simp only [committed, decide_true, Bool.true_and, Option.isSome_iff_ne_none,
                not_not, decide_eq_true_eq, UInt32.not_lt] at noError attempted
              exact ⟨noError, attempted⟩
  · rintro ⟨meaningful, output, committed⟩
    rw [if_neg (by simp [meaningful]), if_neg, if_neg (RawRecord.not_committed_failed committed),
      if_neg (RawRecord.not_committed_unattempted committed)]
    · intro missing
      simp only [Bool.and_eq_true, Bool.not_eq_true', Bool.or_eq_true,
        Option.isNone_iff_eq_none] at missing
      obtain ⟨⟨claims, fresh⟩, gone⟩ := missing
      obtain ⟨location, hash⟩ := output claims fresh
      rcases gone with none | none
      · rw [none] at location; cases location
      · rw [none] at hash; cases hash

/-- A valid record reconciles at its own status. -/
theorem RawRecord.Valid.validate {record : RawRecord} (valid : record.Valid) :
    record.validate record.status = .ok () := by
  obtain ⟨-, output, committed⟩ := RawRecord.valid_iff.mp valid
  unfold RawRecord.validate
  rw [if_neg (by simp), if_neg, if_neg, if_neg (RawRecord.not_committed_failed committed),
    if_neg (RawRecord.not_committed_unattempted committed)]
  · intro missing
    simp only [Bool.and_eq_true, Bool.not_eq_true', Option.isNone_iff_eq_none] at missing
    have hash := (output missing.1.1 missing.1.2).2
    rw [missing.2] at hash
    cases hash
  · rintro missing
    simp only [Bool.and_eq_true, Bool.not_eq_true', Option.isNone_iff_eq_none] at missing
    have location := (output missing.1.1 missing.1.2).1
    rw [missing.2] at location
    cases location

end Webfang
