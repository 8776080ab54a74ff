import Mathlib.Algebra.Group.Nat.Defs
import Webfang.Export.RecordValidity

/-!
# The resume gate and the items of one run

Along a resuming run the slot of a key is open (a record that is not COMMITTED and whose
hash is not in the index), closed (COMMITTED, or a hash in the index) or empty.  An item is
flushed exactly when it meets an open slot, or an empty one with a hash outside the index;
an exporting item closes its slot, a refused one leaves it open, and a closed slot stays
closed.  So of all contents a run brings for one key only the first exporting one is
written.
-/

namespace Webfang

open KeyedMerge

/-- A resuming session whose records are all valid. -/
structure Resuming (s : CommitSession) (ctx : ResumeContext) : Prop where
  present : s.ctx = some ctx
  resume : ctx.resume = true
  valid : ValidRecords s.records

/-- The record would pass the gate: not COMMITTED, and no flush proof for it. -/
def SlotOpen (index : Finset String) (slot : Option RawRecord) : Prop :=
  ∃ record, slot = some record ∧ record.status ≠ .committed ∧
    ∀ contentHash, record.contentHash = some contentHash → contentHash ∉ index

/-- The gate holds the item back: COMMITTED, or promoted from flush proof. -/
def SlotClosed (index : Finset String) (slot : Option RawRecord) : Prop :=
  ∃ record, slot = some record ∧ (record.status = .committed ∨
    ∃ contentHash, record.contentHash = some contentHash ∧ contentHash ∈ index)

theorem slot_trichotomy (index : Finset String) (slot : Option RawRecord) :
    slot = none ∨ SlotOpen index slot ∨ SlotClosed index slot := by
  cases slot with
  | none => exact .inl rfl
  | some record =>
      by_cases closed : record.status = .committed ∨
          ∃ contentHash, record.contentHash = some contentHash ∧ contentHash ∈ index
      · exact .inr (.inr ⟨record, rfl, closed⟩)
      · rw [not_or] at closed
        refine .inr (.inl ⟨record, rfl, closed.1, fun contentHash stamped listed => ?_⟩)
        exact closed.2 ⟨contentHash, stamped, listed⟩

section Keys

variable {keys : ExportKeys} {s : CommitSession} {ctx : ResumeContext} {result : ScrapedContent}
  {env : ItemEnv}

/-! ## The gate, slot by slot -/

theorem Resuming.decide_of_open (resuming : Resuming s ctx)
    (slot : SlotOpen s.hashIndex s.records[keys.itemKey result]?) (freshHash : Option String) :
    s.decide keys result.url.str freshHash = .driveAndCommit := by
  obtain ⟨record, found, status, unproven⟩ := slot
  rw [CommitSession.decide_resume resuming.present resuming.resume,
    show s.records[keys.canonicalKey result.url.str]? = some record from found]
  have notProven : record.validate .committed ≠ .ok () :=
    fun valid => status (record.status_of_validate valid)
  have notListed : record.contentHash.any (· ∈ s.hashIndex) = false := by
    cases stamped : record.contentHash with
    | none => rfl
    | some contentHash => simpa using unproven contentHash stamped
  simp [notProven, notListed]

theorem Resuming.decide_of_closed (resuming : Resuming s ctx)
    (slot : SlotClosed s.hashIndex s.records[keys.itemKey result]?) (freshHash : Option String) :
    s.decide keys result.url.str freshHash ≠ .driveAndCommit := by
  obtain ⟨record, found, closed⟩ := slot
  rw [CommitSession.decide_resume resuming.present resuming.resume,
    show s.records[keys.canonicalKey result.url.str]? = some record from found]
  dsimp only
  split
  · simp
  · rename_i notProven
    rcases closed with committed | ⟨contentHash, stamped, listed⟩
    · have valid := (resuming.valid _ _ found).validate
      rw [committed] at valid
      exact absurd valid notProven
    · simp [stamped, listed]

theorem Resuming.decide_of_absent (resuming : Resuming s ctx)
    (absent : s.records[keys.itemKey result]? = none) (contentHash : String) :
    s.decide keys result.url.str (some contentHash) =
      if contentHash ∈ s.hashIndex then .promoteFromFlushProof else .driveAndCommit := by
  rw [CommitSession.decide_resume resuming.present resuming.resume,
    show s.records[keys.canonicalKey result.url.str]? = none from absent]
  simp

/-- A resuming run never fails a COMMITTED record: the gate skips it. -/
theorem Resuming.spares (resuming : Resuming s ctx) (answer : ExportAnswer) :
    ¬ FailsCommitted keys s result answer := by
  rintro ⟨⟨error, residue, observes, refused⟩, record, found, committed⟩
  have closed : SlotClosed s.hashIndex s.records[keys.itemKey result]? :=
    ⟨record, found, .inl committed⟩
  exact resuming.decide_of_closed closed _ (CommitSession.route_eq_refuse refused).2

variable (keys) in
theorem Resuming.process (resuming : Resuming s ctx) (outputPath runId : String)
    (result : ScrapedContent) (env : ItemEnv) :
    Resuming (processSingleItem keys s result outputPath runId env).1 ctx where
  present := processSingleItem_ctx resuming.present
  resume := resuming.resume
  valid := (process_keeps_records_valid resuming.present resuming.valid outputPath runId
    (resuming.spares env.answer)).1

/-! ## One item -/

/-- The item validates and the exporter accepts it. -/
def Exports (item : ScrapedContent × ItemEnv) : Prop :=
  (DocumentChunk.fromScrapedContent item.1).validate.isOk = true ∧ item.2.answer = .ok

/-- An item appends its own line if it is flushed, and nothing otherwise. -/
theorem process_appends (present : s.ctx = some ctx) (outputPath runId : String)
    (result : ScrapedContent) (env : ItemEnv) :
    appendedLines (processSingleItem keys s result outputPath runId env).2.1 =
      if s.route keys result env.answer = .flush then [keys.itemLine result] else [] := by
  rw [processSingleItem_eq present]
  dsimp only
  cases s.route keys result env.answer with
  | skip => rfl
  | promote =>
      unfold CommitSession.follow
      dsimp only
      split <;> simp
  | refuse error residue observes =>
      unfold CommitSession.follow
      dsimp only
      split <;> simp [appendedLines_append]
  | flush =>
      unfold CommitSession.follow
      dsimp only
      split <;> simp

theorem process_going (present : s.ctx = some ctx) (outputPath runId : String)
    (uncancelled : env.cancelled = false) :
    (processSingleItem keys s result outputPath runId env).2.2 ≠ .cancelled := by
  rw [processSingleItem_eq present]
  dsimp only
  cases s.route keys result env.answer <;> simp [Route.outcome, uncancelled]

theorem process_hashIndex (present : s.ctx = some ctx) (outputPath runId : String) :
    (processSingleItem keys s result outputPath runId env).1.hashIndex = s.hashIndex := by
  rw [processSingleItem_eq present]
  exact CommitSession.follow_frame.2.1

theorem process_driven (present : s.ctx = some ctx) (outputPath runId : String) :
    (processSingleItem keys s result outputPath runId env).1.driven =
      insert (keys.itemPair result) s.driven := by
  rw [processSingleItem_eq present]
  exact CommitSession.follow_frame.2.2

theorem process_records_of_ne (present : s.ctx = some ctx) (outputPath runId : String)
    {k : String} (other : keys.itemKey result ≠ k) :
    (processSingleItem keys s result outputPath runId env).1.records[k]? = s.records[k]? := by
  rw [processSingleItem_eq present]
  exact CommitSession.follow_records_of_ne other

/-- An item whose pair is taken changes nothing. -/
theorem processSingleItem_of_driven (present : s.ctx = some ctx)
    (old : keys.itemPair result ∈ s.driven) (outputPath runId : String) :
    processSingleItem keys s result outputPath runId env = (s, [], .skipped) := by
  have claimed : s.claimed keys result = s := by
    have driven : insert (keys.itemPair result) s.driven = s.driven := Finset.insert_eq_of_mem old
    exact congrArg (fun driven => { s with driven }) driven
  have route : s.route keys result env.answer = .skip := by
    unfold CommitSession.route
    rw [if_pos old]
  rw [processSingleItem_eq present, route, claimed]
  rfl

/-- The slot an item leaves, from what its route does to the session. -/
theorem process_session (present : s.ctx = some ctx) (outputPath runId : String)
    (result : ScrapedContent) (env : ItemEnv) :
    (processSingleItem keys s result outputPath runId env).1 =
      ((s.claimed keys result).follow keys result outputPath ctx.runId runId env
        (s.route keys result env.answer)).1 := by
  rw [processSingleItem_eq present]

/-! ## Slots, item by item -/

/-- A complete EXPORTED record passes the commit point. -/
theorem tryCommitExported_of_complete {record : RawRecord} (status : record.status = .exported)
    (meaningful : isBlank record.url = false) (location : record.outputLocation.isSome = true)
    (hash : record.contentHash.isSome = true) (noError : record.lastError = none)
    (attempted : 1 ≤ record.attempts) :
    tryCommitExported record = some { record with status := .committed } := by
  rw [tryCommitExported_eq_some]
  refine ⟨status, rfl, RawRecord.valid_iff.mpr ⟨meaningful, fun _ _ => ⟨location, hash⟩, ?_⟩⟩
  exact fun _ => ⟨noError, attempted⟩

/-- Below its maximum a counter of attempts does not wrap. -/
theorem one_le_add_one {attempts : UInt32} (room : attempts.toNat + 1 < 2 ^ 32) :
    1 ≤ attempts + 1 := by
  rw [UInt32.le_iff_toNat_le, UInt32.toNat_add]
  have one : (1 : UInt32).toNat = 1 := rfl
  rw [one, Nat.mod_eq_of_lt room]
  omega

theorem route_of_drive (new : keys.itemPair result ∉ s.driven)
    (drive : s.decide keys result.url.str (some (keys.sha256Hex result.content)) =
      .driveAndCommit) (refused : ¬ Exports (result, env)) :
    ∃ error residue observes, s.route keys result env.answer = .refuse error residue observes := by
  unfold CommitSession.route
  rw [if_neg new, drive]
  dsimp only
  cases valid : (DocumentChunk.fromScrapedContent result).validate with
  | error e => exact ⟨_, _, _, rfl⟩
  | ok validated =>
      cases answer : env.answer with
      | ok => exact absurd ⟨by rw [valid]; rfl, answer⟩ refused
      | err e residue => exact ⟨_, _, _, rfl⟩

/-- A refused item leaves an open slot open. -/
theorem Resuming.open_of_refused (resuming : Resuming s ctx) (outputPath runId : String)
    (new : keys.itemPair result ∉ s.driven)
    (slot : SlotOpen s.hashIndex s.records[keys.itemKey result]?)
    (refused : ¬ Exports (result, env)) :
    SlotOpen s.hashIndex
      (processSingleItem keys s result outputPath runId env).1.records[keys.itemKey result]? := by
  obtain ⟨error, residue, observes, route⟩ :=
    route_of_drive new (resuming.decide_of_open slot _) refused
  obtain ⟨record, found, status, unproven⟩ := slot
  rw [process_session resuming.present, route]
  simp only [CommitSession.follow, CommitSession.claimed_records, found, failedRecord]
  rw [CommitSession.put_records_getElem?, if_pos rfl]
  exact ⟨_, rfl, status, unproven⟩

/-- A refused item opens the slot of a key that had no record. -/
theorem Resuming.open_of_absent (resuming : Resuming s ctx) (outputPath runId : String)
    (new : keys.itemPair result ∉ s.driven) (meaningful : isBlank (keys.itemKey result) = false)
    (absent : s.records[keys.itemKey result]? = none)
    (unproven : keys.sha256Hex result.content ∉ s.hashIndex)
    (refused : ¬ Exports (result, env)) :
    SlotOpen s.hashIndex
      (processSingleItem keys s result outputPath runId env).1.records[keys.itemKey result]? := by
  have drive := resuming.decide_of_absent absent (keys.sha256Hex result.content)
  rw [if_neg unproven] at drive
  obtain ⟨error, residue, observes, route⟩ := route_of_drive new drive refused
  rw [process_session resuming.present, route]
  simp only [CommitSession.follow, CommitSession.claimed_records, absent, failedRecord,
    result.url.meaningful, meaningful, Bool.or_self, Bool.false_eq_true, if_false]
  rw [CommitSession.put_records_getElem?, if_pos rfl]
  refine ⟨_, rfl, ?_, ?_⟩
  · simp [RawRecord.withFailure, freshRecord]
  · simp [RawRecord.withFailure, freshRecord]

/-- A settled record that is complete closes its slot. -/
theorem closed_of_settle {index : Finset String} {exported : RawRecord} {key : String}
    {saves : Bool × Bool} (accepted : ∃ committed, tryCommitExported exported = some committed) :
    SlotClosed index (s.settle key exported saves).1.records[key]? := by
  obtain ⟨committed, accepted⟩ := accepted
  rw [CommitSession.settle_records_getElem?, if_pos rfl, accepted]
  obtain ⟨-, rfl, -⟩ := tryCommitExported_eq_some.mp accepted
  exact ⟨_, rfl, .inl rfl⟩

/-- An exporting item closes the slot of its key. -/
theorem Resuming.closed_of_flush (resuming : Resuming s ctx) (outputPath runId : String)
    (meaningful : isBlank (keys.itemKey result) = false)
    (room : ∀ record, s.records[keys.itemKey result]? = some record →
      record.attempts.toNat + 1 < 2 ^ 32)
    (flushed : s.route keys result env.answer = .flush) :
    SlotClosed s.hashIndex
      (processSingleItem keys s result outputPath runId env).1.records[keys.itemKey result]? := by
  rw [process_session resuming.present, flushed]
  simp only [CommitSession.follow, CommitSession.claimed_records]
  unfold drivenRecord
  dsimp only
  cases found : (s.records[keys.itemKey result]?).filter
      fun record => !record.status.claimsOutput with
  | some record =>
      have stored := (Option.filter_eq_some_iff.mp found).1
      refine closed_of_settle ⟨_, tryCommitExported_of_complete rfl ?_ rfl rfl rfl ?_⟩
      · exact (RawRecord.valid_iff.mp (resuming.valid _ _ stored)).1
      · exact one_le_add_one (room record stored)
  | none =>
      simp only [result.url.meaningful, meaningful, Bool.or_self, Bool.false_eq_true, if_false]
      refine closed_of_settle ⟨_, tryCommitExported_of_complete rfl ?_ rfl rfl rfl ?_⟩
      · exact result.url.meaningful
      · exact UInt32.le_refl _

/-- A proof found without a record closes the slot. -/
theorem Resuming.closed_of_absent (resuming : Resuming s ctx) (outputPath runId : String)
    (new : keys.itemPair result ∉ s.driven) (meaningful : isBlank (keys.itemKey result) = false)
    (absent : s.records[keys.itemKey result]? = none)
    (proven : keys.sha256Hex result.content ∈ s.hashIndex) :
    SlotClosed s.hashIndex
      (processSingleItem keys s result outputPath runId env).1.records[keys.itemKey result]? := by
  have decision := resuming.decide_of_absent absent (keys.sha256Hex result.content)
  rw [if_pos proven] at decision
  have route : s.route keys result env.answer = .promote := by
    unfold CommitSession.route
    rw [if_neg new, decision]
  rw [process_session resuming.present, route]
  simp only [CommitSession.follow, CommitSession.claimed_records, absent, promotedRecord,
    result.url.meaningful, meaningful, Bool.or_self, Bool.false_eq_true, if_false]
  refine closed_of_settle ⟨_, tryCommitExported_of_complete rfl ?_ ?_ rfl rfl ?_⟩
  · exact result.url.meaningful
  · simp
  · exact UInt32.le_refl _

/-- A closed slot stays closed, whatever item of its key comes. -/
theorem Resuming.closed_of_closed (resuming : Resuming s ctx) (outputPath runId : String)
    (slot : SlotClosed s.hashIndex s.records[keys.itemKey result]?)
    (room : ∀ record, s.records[keys.itemKey result]? = some record →
      record.attempts.toNat + 1 < 2 ^ 32) :
    SlotClosed s.hashIndex
      (processSingleItem keys s result outputPath runId env).1.records[keys.itemKey result]? := by
  have held := resuming.decide_of_closed slot (some (keys.sha256Hex result.content))
  rw [process_session resuming.present]
  cases route : s.route keys result env.answer with
  | skip => exact slot
  | refuse error residue observes => exact absurd (CommitSession.route_eq_refuse route).2 held
  | flush => exact absurd (CommitSession.route_eq_flush.mp route).2.1 held
  | promote =>
      obtain ⟨record, found, closed⟩ := slot
      have recordValid := resuming.valid _ _ found
      have facts := RawRecord.valid_iff.mp recordValid
      have table := recordValid.validate
      simp only [CommitSession.follow, CommitSession.claimed_records, found]
      by_cases exported : record.status = .exported
      · rw [exported] at table
        have kept : promotedRecord (some record) result.url.str (keys.itemKey result) ctx.runId
            (keys.sha256Hex result.content) outputPath env.now = some record := by
          simp [promotedRecord, exported, table]
        rw [kept]
        dsimp only
        rw [CommitSession.settle_records_getElem?, if_pos rfl]
        cases accepted : tryCommitExported record with
        | none => exact ⟨record, rfl, closed⟩
        | some committed =>
            obtain ⟨-, rfl, -⟩ := tryCommitExported_eq_some.mp accepted
            exact ⟨_, rfl, .inl rfl⟩
      · have notCommitted : record.status ≠ .committed := by
          intro committed
          rw [committed] at table
          have decision := (CommitSession.route_eq_promote route).2
          rw [CommitSession.decide_resume resuming.present resuming.resume,
            show s.records[keys.canonicalKey result.url.str]? = some record from found] at decision
          simp [table] at decision
        have active : record.status.claimsOutput = false := by
          cases status : record.status with
          | exported => exact absurd status exported
          | committed => exact absurd status notCommitted
          | discovered | queued | fetching | fetched | extracted | processed => rfl
        simp only [promotedRecord, exported, false_and, if_false, active, if_true]
        refine closed_of_settle ⟨_, tryCommitExported_of_complete rfl facts.1 ?_ rfl rfl ?_⟩
        · simp
        · exact one_le_add_one (room record found)

end Keys

/-! ## Attempts -/

/-- No counter of the map wraps within `n` more items. -/
structure Room (n : Nat) (records : DomainRecords) : Prop where
  items : n < 2 ^ 32
  counters : AllEntries (fun _ record => record.attempts.toNat + n < 2 ^ 32) records

theorem toNat_add_one_le (attempts : UInt32) : (attempts + 1).toNat ≤ attempts.toNat + 1 := by
  have one : (1 : UInt32).toNat = 1 := rfl
  rw [UInt32.toNat_add, one]
  exact Nat.mod_le _ _

/-- The counter of a record, or zero without one. -/
def attemptsOf (slot : Option RawRecord) : Nat := (slot.map (·.attempts.toNat)).getD 0

theorem attempts_drivenRecord {found : Option RawRecord}
    {url key runId contentHash outputLocation : String} {now : Int} {record : RawRecord}
    (made : drivenRecord found url key runId contentHash outputLocation now = some record) :
    record.attempts.toNat ≤ attemptsOf found + 1 := by
  unfold drivenRecord at made
  dsimp only at made
  split at made
  · rename_i old active
    cases made
    rw [(Option.filter_eq_some_iff.mp active).1]
    exact toNat_add_one_le old.attempts
  · split at made
    · cases made
    · cases made
      exact Nat.le_add_left _ _

theorem attempts_promotedRecord {found : Option RawRecord}
    {url key runId contentHash outputLocation : String} {now : Int} {record : RawRecord}
    (made : promotedRecord found url key runId contentHash outputLocation now = some record) :
    record.attempts.toNat ≤ attemptsOf found + 1 := by
  unfold promotedRecord at made
  dsimp only at made
  split at made
  · split at made
    · cases made
    · cases made
      exact Nat.le_add_left _ _
  · rename_i old
    split at made
    · cases made
      exact Nat.le_succ _
    · split at made
      · cases made
        exact toNat_add_one_le old.attempts
      · split at made
        · cases made
        · split at made
          · cases made
            exact Nat.zero_le _
          · cases made
            exact Nat.le_add_left _ _

theorem attempts_failedRecord {found : Option RawRecord} {url key runId message : String}
    {errorClass : ErrorClass} {now : Int} {record : RawRecord}
    (made : failedRecord found url key runId errorClass message now = some record) :
    record.attempts.toNat ≤ attemptsOf found + 1 := by
  unfold failedRecord at made
  split at made
  · rename_i old
    cases made
    exact toNat_add_one_le old.attempts
  · split at made
    · cases made
    · cases made
      exact Nat.le_add_left _ _

section Keys

variable {keys : ExportKeys} {s : CommitSession} {ctx : ResumeContext} {result : ScrapedContent}
  {env : ItemEnv}

variable (keys) in
/-- One item adds at most one attempt to a record. -/
theorem Room.process {n : Nat} (room : Room (n + 1) s.records) (present : s.ctx = some ctx)
    (outputPath runId : String) (result : ScrapedContent) (env : ItemEnv) :
    Room n (processSingleItem keys s result outputPath runId env).1.records := by
  have small := room.items
  have slot : attemptsOf s.records[keys.itemKey result]? + (n + 1) < 2 ^ 32 := by
    cases found : s.records[keys.itemKey result]? with
    | none => simpa [attemptsOf] using small
    | some record => exact room.counters _ _ found
  refine ⟨by omega, ?_⟩
  rw [process_session present]
  refine (CommitSession.follow_keeps [] (P := fun _ _ record => record.attempts.toNat + n < 2 ^ 32)
    (s := s.claimed keys result) ?_ ?_ ?_ ?_ ?_ ?_).1
  · exact room.counters.mono fun _ _ bound => by omega
  · exact fun _ _ _ bound => bound
  · intro _ _ exported committed bound accepted
    obtain ⟨-, rfl, -⟩ := tryCommitExported_eq_some.mp accepted
    exact bound
  · intro _ exported made
    have grown := attempts_promotedRecord made
    rw [CommitSession.claimed_records] at grown
    omega
  · intro error residue observes _ failed made
    have grown := attempts_failedRecord made
    rw [CommitSession.claimed_records] at grown
    omega
  · intro _ exported made
    have grown := attempts_drivenRecord made
    rw [CommitSession.claimed_records] at grown
    omega

/-! ## Lists of items -/

variable (keys) in
/-- The items that claim their pair first. -/
def claimants (seen : Finset (String × String)) :
    List (ScrapedContent × ItemEnv) → List (ScrapedContent × ItemEnv)
  | [] => []
  | item :: rest =>
      if keys.itemPair item.1 ∈ seen then claimants seen rest
      else item :: claimants (insert (keys.itemPair item.1) seen) rest

theorem mem_claimants {seen : Finset (String × String)} {items : List (ScrapedContent × ItemEnv)}
    {item : ScrapedContent × ItemEnv} (member : item ∈ claimants keys seen items) :
    item ∈ items ∧ keys.itemPair item.1 ∉ seen := by
  induction items generalizing seen with
  | nil => cases member
  | cons head rest ih =>
      rw [claimants] at member
      split at member
      · exact ⟨List.mem_cons_of_mem _ (ih member).1, (ih member).2⟩
      · rename_i new
        rcases List.mem_cons.mp member with rfl | later
        · exact ⟨List.mem_cons_self, new⟩
        · obtain ⟨inRest, unseen⟩ := ih later
          exact ⟨List.mem_cons_of_mem _ inRest, fun old => unseen (Finset.mem_insert_of_mem old)⟩

/-- Claimants have pairwise different pairs. -/
theorem nodup_claimants (seen : Finset (String × String))
    (items : List (ScrapedContent × ItemEnv)) :
    ((claimants keys seen items).map fun item => keys.itemPair item.1).Nodup := by
  induction items generalizing seen with
  | nil => exact List.nodup_nil
  | cons head rest ih =>
      rw [claimants]
      split
      · exact ih seen
      · rw [List.map_cons, List.nodup_cons]
        refine ⟨fun again => ?_, ih _⟩
        obtain ⟨item, member, same⟩ := List.mem_map.mp again
        exact (mem_claimants member).2 (same ▸ Finset.mem_insert_self _ _)

/-- Every new pair has its claimant. -/
theorem exists_claimant {seen : Finset (String × String)} {items : List (ScrapedContent × ItemEnv)}
    {item : ScrapedContent × ItemEnv} (member : item ∈ items)
    (new : keys.itemPair item.1 ∉ seen) :
    ∃ first ∈ claimants keys seen items, keys.itemPair first.1 = keys.itemPair item.1 := by
  induction items generalizing seen with
  | nil => cases member
  | cons head rest ih =>
      rw [claimants]
      split
      · rename_i old
        rcases List.mem_cons.mp member with rfl | later
        · exact absurd old new
        · exact ih later new
      · by_cases same : keys.itemPair item.1 = keys.itemPair head.1
        · exact ⟨head, List.mem_cons_self, same.symm⟩
        · rcases List.mem_cons.mp member with rfl | later
          · exact absurd rfl same
          · have unseen : keys.itemPair item.1 ∉ insert (keys.itemPair head.1) seen := by
              simp [same, new]
            obtain ⟨first, found, pair⟩ := ih later unseen
            exact ⟨first, List.mem_cons_of_mem _ found, pair⟩

variable (keys result) in
/-- An uncancelled item hands its session on and puts its effects first. -/
theorem processItems_cons (present : s.ctx = some ctx) (outputPath runId : String)
    (uncancelled : env.cancelled = false) (rest : List (ScrapedContent × ItemEnv)) :
    let item := processSingleItem keys s result outputPath runId env
    let later := processItems keys outputPath runId item.1 rest
    (processItems keys outputPath runId s ((result, env) :: rest)).1 = later.1 ∧
      (processItems keys outputPath runId s ((result, env) :: rest)).2.1 =
        item.2.1 ++ later.2.1 := by
  dsimp only
  rw [processItems_of_going (process_going present outputPath runId uncancelled)]
  exact ⟨rfl, rfl⟩

variable (keys) in
/-- Items whose pair is taken change nothing. -/
theorem processItems_claimants (present : s.ctx = some ctx) (outputPath runId : String)
    {items : List (ScrapedContent × ItemEnv)}
    (uncancelled : ∀ item ∈ items, item.2.cancelled = false) :
    (processItems keys outputPath runId s items).1 =
        (processItems keys outputPath runId s (claimants keys s.driven items)).1 ∧
      (processItems keys outputPath runId s items).2.1 =
        (processItems keys outputPath runId s (claimants keys s.driven items)).2.1 := by
  induction items generalizing s with
  | nil => exact ⟨rfl, rfl⟩
  | cons head rest ih =>
      obtain ⟨result, env⟩ := head
      have here : env.cancelled = false := uncancelled (result, env) List.mem_cons_self
      have later : ∀ item ∈ rest, item.2.cancelled = false :=
        fun item member => uncancelled item (List.mem_cons_of_mem _ member)
      have next := processItems_cons keys result present outputPath runId here
      rw [(next rest).1, (next rest).2, claimants]
      split
      · rename_i old
        rw [processSingleItem_of_driven present old]
        exact ih present later
      · have nextPresent :
            (processSingleItem keys s result outputPath runId env).1.ctx = some ctx :=
          processSingleItem_ctx present
        have same := ih nextPresent later
        rw [process_driven present] at same
        rw [(next _).1, (next _).2, same.1, same.2]
        exact ⟨rfl, rfl⟩

/-- A line was appended by the item whose turn it was, and which was flushed then. -/
theorem mem_appendedLines_iff (present : s.ctx = some ctx) (outputPath runId : String)
    {items : List (ScrapedContent × ItemEnv)}
    (uncancelled : ∀ item ∈ items, item.2.cancelled = false) {line : ExportLine} :
    line ∈ appendedLines (processItems keys outputPath runId s items).2.1 ↔
      ∃ before item after, items = before ++ item :: after ∧ line = keys.itemLine item.1 ∧
        (processItems keys outputPath runId s before).1.route keys item.1 item.2.answer =
          .flush := by
  induction items generalizing s with
  | nil => simp [processItems]
  | cons head rest ih =>
      obtain ⟨result, env⟩ := head
      have here : env.cancelled = false := uncancelled (result, env) List.mem_cons_self
      have later : ∀ item ∈ rest, item.2.cancelled = false :=
        fun item member => uncancelled item (List.mem_cons_of_mem _ member)
      have next := processItems_cons keys result present outputPath runId here
      have nextPresent : (processSingleItem keys s result outputPath runId env).1.ctx = some ctx :=
        processSingleItem_ctx present
      rw [(next rest).2, appendedLines_append, List.mem_append, process_appends present,
        ih nextPresent later]
      constructor
      · rintro (own | ⟨before, item, after, rfl, same, route⟩)
        · split at own
          · rename_i route
            exact ⟨[], (result, env), rest, rfl, List.mem_singleton.mp own, route⟩
          · cases own
        · refine ⟨(result, env) :: before, item, after, rfl, same, ?_⟩
          rw [(next before).1]
          exact route
      · rintro ⟨before, item, after, split, same, route⟩
        cases before with
        | nil =>
            cases split
            left
            rw [if_pos (show s.route keys result env.answer = .flush from route), same]
            exact List.mem_singleton.mpr rfl
        | cons first before =>
            cases split
            right
            rw [(next before).1] at route
            exact ⟨before, item, after, rfl, same, route⟩

/-! ## The first exporting item of a key -/

variable (keys) in
/-- Items in their turn: pairs not yet claimed and pairwise different, meaningful keys, no
cancellation. -/
structure Lineup (s : CommitSession) (items : List (ScrapedContent × ItemEnv)) : Prop where
  new : ∀ item ∈ items, keys.itemPair item.1 ∉ s.driven
  distinct : (items.map fun item => keys.itemPair item.1).Nodup
  meaningful : ∀ item ∈ items, isBlank (keys.itemKey item.1) = false
  uncancelled : ∀ item ∈ items, item.2.cancelled = false

theorem Lineup.tail {rest : List (ScrapedContent × ItemEnv)}
    (lineup : Lineup keys s ((result, env) :: rest)) (present : s.ctx = some ctx)
    (outputPath runId : String) :
    Lineup keys (processSingleItem keys s result outputPath runId env).1 rest where
  new := by
    intro item member old
    rw [process_driven present, Finset.mem_insert] at old
    have distinct := lineup.distinct
    rw [List.map_cons, List.nodup_cons] at distinct
    rcases old with same | old
    · exact distinct.1 (List.mem_map.mpr ⟨item, member, same⟩)
    · exact lineup.new item (List.mem_cons_of_mem _ member) old
  distinct := by
    have distinct := lineup.distinct
    rw [List.map_cons, List.nodup_cons] at distinct
    exact distinct.2
  meaningful item member := lineup.meaningful item (List.mem_cons_of_mem _ member)
  uncancelled item member := lineup.uncancelled item (List.mem_cons_of_mem _ member)

/-- The first of them hands its session on. -/
theorem Lineup.process_head {before after : List (ScrapedContent × ItemEnv)}
    (lineup : Lineup keys s ((result, env) :: before ++ after)) (present : s.ctx = some ctx)
    (outputPath runId : String) :
    (processItems keys outputPath runId s ((result, env) :: before)).1 =
      (processItems keys outputPath runId
        (processSingleItem keys s result outputPath runId env).1 before).1 :=
  (processItems_cons keys result present outputPath runId
    (lineup.uncancelled (result, env) List.mem_cons_self) before).1

theorem Lineup.new_after {before after : List (ScrapedContent × ItemEnv)}
    {item : ScrapedContent × ItemEnv} (lineup : Lineup keys s (before ++ item :: after))
    (present : s.ctx = some ctx) (outputPath runId : String) :
    keys.itemPair item.1 ∉ (processItems keys outputPath runId s before).1.driven := by
  induction before generalizing s with
  | nil => exact lineup.new item (by simp)
  | cons head before ih =>
      obtain ⟨result, env⟩ := head
      rw [lineup.process_head present outputPath runId]
      exact ih (lineup.tail present outputPath runId) (processSingleItem_ctx present)

variable (keys) in
/-- No flush proof for a key: the hash of its record, or without a record the hash of the
first item that brings the key, is not in the index. -/
def ProofMisses (records : DomainRecords) (index : Finset String)
    (items : List (ScrapedContent × ItemEnv)) (key : String) : Prop :=
  match records[key]? with
  | some record => ∀ contentHash, record.contentHash = some contentHash → contentHash ∉ index
  | none => ∀ first, items.find? (fun item => keys.itemKey item.1 = key) = some first →
      keys.sha256Hex first.1.content ∉ index

theorem ProofMisses.of_open {records : DomainRecords} {index : Finset String}
    {items : List (ScrapedContent × ItemEnv)} {key : String}
    (slot : SlotOpen index records[key]?) : ProofMisses keys records index items key := by
  obtain ⟨record, found, -, unproven⟩ := slot
  unfold ProofMisses
  rw [found]
  exact unproven

/-- Behind refused items of its own key an item is still driven. -/
theorem Resuming.drives_behind_refused (outputPath runId : String)
    {before after : List (ScrapedContent × ItemEnv)} {item : ScrapedContent × ItemEnv}
    (resuming : Resuming s ctx) (lineup : Lineup keys s (before ++ item :: after))
    (notCommitted : ∀ record, s.records[keys.itemKey item.1]? = some record →
      record.status ≠ .committed)
    (misses : ProofMisses keys s.records s.hashIndex (before ++ item :: after)
      (keys.itemKey item.1))
    (refused : ∀ other ∈ before, keys.itemKey other.1 = keys.itemKey item.1 → ¬ Exports other) :
    (processItems keys outputPath runId s before).1.decide keys item.1.url.str
      (some (keys.sha256Hex item.1.content)) = .driveAndCommit := by
  induction before generalizing s with
  | nil =>
      cases found : s.records[keys.itemKey item.1]? with
      | none =>
          rw [ProofMisses, found] at misses
          have unproven := misses item (by simp)
          rw [processItems, resuming.decide_of_absent found, if_neg unproven]
      | some record =>
          rw [ProofMisses, found] at misses
          exact resuming.decide_of_open ⟨record, found, notCommitted record found, misses⟩ _
  | cons head before ih =>
      obtain ⟨result, env⟩ := head
      rw [lineup.process_head resuming.present outputPath runId]
      have open_ : keys.itemKey result = keys.itemKey item.1 →
          SlotOpen s.hashIndex (processSingleItem keys s result outputPath runId env).1.records[
            keys.itemKey item.1]? := by
        intro same
        have new := lineup.new (result, env) List.mem_cons_self
        have refusedHere := refused (result, env) List.mem_cons_self same
        rw [← same] at notCommitted misses ⊢
        cases found : s.records[keys.itemKey result]? with
        | none =>
            rw [ProofMisses, found] at misses
            have unproven := misses (result, env) (by simp)
            exact resuming.open_of_absent outputPath runId new
              (lineup.meaningful (result, env) List.mem_cons_self) found unproven refusedHere
        | some record =>
            rw [ProofMisses, found] at misses
            exact resuming.open_of_refused outputPath runId new
              ⟨record, found, notCommitted record found, misses⟩ refusedHere
      refine ih (resuming.process keys outputPath runId result env)
        (lineup.tail resuming.present outputPath runId) ?_ ?_ ?_
      · intro record found
        by_cases same : keys.itemKey result = keys.itemKey item.1
        · obtain ⟨stored, present, status, -⟩ := open_ same
          rw [present] at found
          cases found
          exact status
        · rw [process_records_of_ne resuming.present outputPath runId same] at found
          exact notCommitted record found
      · rw [process_hashIndex resuming.present]
        by_cases same : keys.itemKey result = keys.itemKey item.1
        · exact .of_open (open_ same)
        · unfold ProofMisses at misses ⊢
          rw [process_records_of_ne resuming.present outputPath runId same]
          rw [List.cons_append, List.find?_cons_of_neg (by simpa using same)] at misses
          exact misses
      · exact fun other member => refused other (List.mem_cons_of_mem _ member)

/-- A closed slot holds every later item of its key back. -/
theorem Resuming.held_behind_closed (outputPath runId : String)
    {before after : List (ScrapedContent × ItemEnv)} {item : ScrapedContent × ItemEnv}
    (resuming : Resuming s ctx) (lineup : Lineup keys s (before ++ item :: after))
    (room : Room (before ++ item :: after).length s.records)
    (closed : SlotClosed s.hashIndex s.records[keys.itemKey item.1]?) :
    (processItems keys outputPath runId s before).1.route keys item.1 item.2.answer ≠ .flush := by
  induction before generalizing s with
  | nil =>
      intro flushed
      exact resuming.decide_of_closed closed _ (CommitSession.route_eq_flush.mp flushed).2.1
  | cons head before ih =>
      obtain ⟨result, env⟩ := head
      rw [lineup.process_head resuming.present outputPath runId]
      refine ih (resuming.process keys outputPath runId result env)
        (lineup.tail resuming.present outputPath runId)
        (room.process keys resuming.present outputPath runId result env) ?_
      rw [process_hashIndex resuming.present]
      by_cases same : keys.itemKey result = keys.itemKey item.1
      · rw [← same] at closed ⊢
        refine resuming.closed_of_closed outputPath runId closed fun record found => ?_
        have bound := room.counters _ _ found
        simp only [List.cons_append, List.length_cons] at bound
        omega
      · rw [process_records_of_ne resuming.present outputPath runId same]
        exact closed

/-- An item that is flushed met no flush proof and no exporting item of its key. -/
theorem Resuming.first_exporting_of_flush (outputPath runId : String)
    {before after : List (ScrapedContent × ItemEnv)} {item : ScrapedContent × ItemEnv}
    (resuming : Resuming s ctx) (lineup : Lineup keys s (before ++ item :: after))
    (room : Room (before ++ item :: after).length s.records)
    (flushed : (processItems keys outputPath runId s before).1.route keys item.1 item.2.answer =
      .flush) :
    ProofMisses keys s.records s.hashIndex (before ++ item :: after) (keys.itemKey item.1) ∧
      ∀ other ∈ before, keys.itemKey other.1 = keys.itemKey item.1 → ¬ Exports other := by
  have notClosed : ¬ SlotClosed s.hashIndex s.records[keys.itemKey item.1]? :=
    fun closed => resuming.held_behind_closed outputPath runId lineup room closed flushed
  induction before generalizing s with
  | nil =>
      refine ⟨?_, by simp⟩
      have drive := (CommitSession.route_eq_flush.mp flushed).2.1
      rcases slot_trichotomy s.hashIndex s.records[keys.itemKey item.1]? with
        absent | opened | closed
      · rw [processItems, resuming.decide_of_absent absent] at drive
        unfold ProofMisses
        rw [absent]
        intro first found
        simp only [List.nil_append, decide_true, List.find?_cons_of_pos, Option.some.injEq] at found
        subst found
        intro listed
        rw [if_pos listed] at drive
        cases drive
      · exact .of_open opened
      · exact absurd closed notClosed
  | cons head before ih =>
      obtain ⟨result, env⟩ := head
      rw [lineup.process_head resuming.present outputPath runId] at flushed
      have later := resuming.process keys outputPath runId result env
      have tail := lineup.tail resuming.present outputPath runId
      have roomLater := room.process keys resuming.present outputPath runId result env
      have notClosedLater : ¬ SlotClosed (processSingleItem keys s result outputPath runId
          env).1.hashIndex (processSingleItem keys s result outputPath runId env).1.records[
            keys.itemKey item.1]? :=
        fun closed => later.held_behind_closed outputPath runId tail roomLater closed flushed
      obtain ⟨misses, refused⟩ := ih later tail roomLater flushed notClosedLater
      rw [process_hashIndex resuming.present] at misses notClosedLater
      by_cases same : keys.itemKey result = keys.itemKey item.1
      · rw [← same] at notClosed notClosedLater
        have new := lineup.new (result, env) List.mem_cons_self
        have meaningful := lineup.meaningful (result, env) List.mem_cons_self
        have small : ∀ record, s.records[keys.itemKey result]? = some record →
            record.attempts.toNat + 1 < 2 ^ 32 := by
          intro record found
          have bound := room.counters _ _ found
          simp only [List.cons_append, List.length_cons] at bound
          omega
        have missesHere : ProofMisses keys s.records s.hashIndex
            (((result, env) :: before) ++ item :: after) (keys.itemKey item.1) ∧
              s.decide keys result.url.str (some (keys.sha256Hex result.content)) =
                .driveAndCommit := by
          rw [← same]
          rcases slot_trichotomy s.hashIndex s.records[keys.itemKey result]? with
            absent | opened | closed
          · have unproven : keys.sha256Hex result.content ∉ s.hashIndex := fun proven =>
              notClosedLater (resuming.closed_of_absent outputPath runId new meaningful absent
                proven)
            refine ⟨?_, by rw [resuming.decide_of_absent absent, if_neg unproven]⟩
            unfold ProofMisses
            rw [absent]
            intro first found
            simp only [List.cons_append, decide_true, List.find?_cons_of_pos,
              Option.some.injEq] at found
            subst found
            exact unproven
          · exact ⟨.of_open opened, resuming.decide_of_open opened _⟩
          · exact absurd closed notClosed
        refine ⟨missesHere.1, fun other member sameKey exports => ?_⟩
        rcases List.mem_cons.mp member with rfl | inBefore
        · have flushedHere : s.route keys result env.answer = .flush :=
            CommitSession.route_eq_flush.mpr ⟨new, missesHere.2, exports.1, exports.2⟩
          exact notClosedLater (resuming.closed_of_flush outputPath runId meaningful small
            flushedHere)
        · exact refused other inBefore sameKey exports
      · refine ⟨?_, fun other member sameKey => ?_⟩
        · unfold ProofMisses at misses ⊢
          rw [process_records_of_ne resuming.present outputPath runId same] at misses
          rw [List.cons_append, List.find?_cons_of_neg (by simpa using same)]
          exact misses
        · rcases List.mem_cons.mp member with rfl | inBefore
          · exact absurd sameKey same
          · exact refused other inBefore sameKey

end Keys

end Webfang
