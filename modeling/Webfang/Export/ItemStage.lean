import Webfang.Export.ResumeGate

/-!
# The stages of an item

Over crashes and failures an item of a fixed list stands at one of five stages, read off
its durable record and the number of its lines in the file.  `Orderly` says that every item
stands at some stage and that the file and the store hold nothing else that matters; a
change to one item's record and line that leaves it at a stage keeps `Orderly`.
-/

namespace Webfang

open KeyedMerge

/-- Where an item stands, from its record and the count of its lines. -/
inductive Stage (contentHash : String) : Option RawRecord → Nat → Prop
  /-- nothing durable yet -/
  | untouched : Stage contentHash none 0
  /-- its line is flushed, no record was saved -/
  | flushed : Stage contentHash none 1
  /-- only failures were recorded -/
  | failed (record : RawRecord) (valid : record.Valid) (status : record.status = .discovered)
      (noHash : record.contentHash = none) : Stage contentHash (some record) 0
  /-- its line is flushed and the EXPORTED checkpoint saved -/
  | exported (record : RawRecord) (valid : record.Valid) (status : record.status = .exported)
      (hash : record.contentHash = some contentHash) (accepted : tryCommitExported record =
        some { record with status := .committed }) : Stage contentHash (some record) 1
  /-- committed -/
  | committed (record : RawRecord) (valid : record.Valid) (status : record.status = .committed)
      (hash : record.contentHash = some contentHash) : Stage contentHash (some record) 1

theorem Stage.count_eq_zero_or_one {contentHash : String} {slot : Option RawRecord} {count : Nat}
    (stage : Stage contentHash slot count) : count = 0 ∨ count = 1 := by
  cases stage with
  | untouched | failed => exact .inl rfl
  | flushed | exported | committed => exact .inr rfl

/-- A record that claims flushed output stands behind exactly one line. -/
theorem Stage.count_of_claims {contentHash : String} {record : RawRecord} {count : Nat}
    (stage : Stage contentHash (some record) count)
    (claims : record.status.claimsOutput = true) : count = 1 := by
  cases stage with
  | failed _ _ status _ =>
      rw [status] at claims
      cases claims
  | exported | committed => rfl

section Keys

variable (keys : ExportKeys)

/-- The fixed list of items: canonical URLs and contents pairwise distinct, contents told
apart by their digests, keys meaningful, every item valid for export. -/
structure Catalog (items : List ScrapedContent) : Prop where
  distinctKeys : (items.map keys.itemKey).Nodup
  distinctContents : (items.map (·.content)).Nodup
  digests : ∀ a ∈ items, ∀ b ∈ items,
    keys.sha256Hex a.content = keys.sha256Hex b.content → a.content = b.content
  meaningful : ∀ item ∈ items, isBlank (keys.itemKey item) = false
  validates : ∀ item ∈ items, (DocumentChunk.fromScrapedContent item).validate.isOk = true

/-- Every item stands at a stage, and the file and the store hold nothing else. -/
structure Orderly (items : List ScrapedContent) (w : World) : Prop where
  stage : ∀ item ∈ items, Stage (keys.sha256Hex item.content) w.store[keys.itemKey item]?
    (w.file.lines.count (keys.itemLine item))
  lines : ∀ line ∈ w.file.lines, ∃ item ∈ items, line = keys.itemLine item
  valid : ValidRecords w.store
  /-- an unterminated line proves nothing that is not on record -/
  tail : ∀ item ∈ items,
    w.file.tail.bind (·.checksumSha256) = some (keys.sha256Hex item.content) →
      w.store[keys.itemKey item]? ≠ none ∨ keys.itemLine item ∈ w.file.lines

variable {keys} {items : List ScrapedContent}

theorem Catalog.eq_of_key (catalog : Catalog keys items) {a b : ScrapedContent} (left : a ∈ items)
    (right : b ∈ items) (same : keys.itemKey a = keys.itemKey b) : a = b :=
  List.inj_on_of_nodup_map catalog.distinctKeys left right same

theorem Catalog.eq_of_hash (catalog : Catalog keys items) {a b : ScrapedContent}
    (left : a ∈ items) (right : b ∈ items)
    (same : keys.sha256Hex a.content = keys.sha256Hex b.content) : a = b :=
  List.inj_on_of_nodup_map catalog.distinctContents left right
    (catalog.digests a left b right same)

theorem Catalog.eq_of_line (catalog : Catalog keys items) {a b : ScrapedContent}
    (left : a ∈ items) (right : b ∈ items) (same : keys.itemLine a = keys.itemLine b) : a = b := by
  simp only [ExportKeys.itemLine, ExportLine.mk.injEq, Option.some.injEq] at same
  exact catalog.eq_of_hash left right same.2.1

theorem Orderly.empty : Orderly keys items ⟨.empty, ∅⟩ where
  stage item _ := by
    rw [Std.ExtTreeMap.getElem?_empty]
    exact .untouched
  lines _ member := by cases member
  valid := AllEntries.empty
  tail _ _ torn := by cases torn

/-- A record for one item and at most one line of it, leaving the item at a stage, keep the
world orderly. -/
theorem Orderly.change {w : World} (orderly : Orderly keys items w) (catalog : Catalog keys items)
    {item : ScrapedContent} (member : item ∈ items) {lines : List ExportLine}
    {tail : Option ExportLine} {store : DomainRecords}
    (appended : lines = w.file.lines ∨ lines = w.file.lines ++ [keys.itemLine item])
    (stored : store = w.store ∨
      ∃ record, record.Valid ∧ store = w.store.insert (keys.itemKey item) record)
    (stage : Stage (keys.sha256Hex item.content) store[keys.itemKey item]?
      (lines.count (keys.itemLine item)))
    (torn : tail = w.file.tail ∨ ∀ contentHash,
      tail.bind (·.checksumSha256) = some contentHash →
        contentHash = keys.sha256Hex item.content ∧ store[keys.itemKey item]? ≠ none) :
    Orderly keys items ⟨⟨lines, tail⟩, store⟩ := by
  have kept : ∀ line ∈ w.file.lines, line ∈ lines := by
    intro line old
    rcases appended with rfl | rfl
    · exact old
    · exact List.mem_append_left _ old
  have others : ∀ other ∈ items, other ≠ item →
      store[keys.itemKey other]? = w.store[keys.itemKey other]? ∧
        lines.count (keys.itemLine other) = w.file.lines.count (keys.itemLine other) := by
    intro other inItems different
    have key : keys.itemKey item ≠ keys.itemKey other :=
      fun same => different (catalog.eq_of_key member inItems same).symm
    have line : keys.itemLine item ≠ keys.itemLine other :=
      fun same => different (catalog.eq_of_line member inItems same).symm
    constructor
    · rcases stored with rfl | ⟨record, -, rfl⟩
      · rfl
      · rw [getElem?_insert_of_eq, if_neg key]
    · rcases appended with rfl | rfl
      · rfl
      · rw [List.count_append, List.count_singleton, if_neg (by simpa using line), Nat.add_zero]
  refine ⟨?_, ?_, ?_, ?_⟩
  · intro other inItems
    by_cases same : other = item
    · rw [same]
      exact stage
    · rw [(others other inItems same).1, (others other inItems same).2]
      exact orderly.stage other inItems
  · intro line inLines
    rcases appended with rfl | rfl
    · exact orderly.lines line inLines
    · rcases List.mem_append.mp inLines with old | new
      · exact orderly.lines line old
      · exact ⟨item, member, List.mem_singleton.mp new⟩
  · rcases stored with rfl | ⟨record, recordValid, rfl⟩
    · exact orderly.valid
    · exact AllEntries.insert orderly.valid recordValid
  · have recorded : ∀ key : String, w.store[key]? ≠ none → store[key]? ≠ none := by
      intro key old
      rcases stored with rfl | ⟨record, -, rfl⟩
      · exact old
      · rw [getElem?_insert_of_eq]
        split
        · simp
        · exact old
    intro other inItems proves
    rcases torn with rfl | torn
    · rcases orderly.tail other inItems proves with old | old
      · exact .inl (recorded _ old)
      · exact .inr (kept _ old)
    · obtain ⟨same, onRecord⟩ := torn _ proves
      rw [← catalog.eq_of_hash inItems member same] at onRecord
      exact .inl onRecord

/-- What a session opened over an orderly world knows from the file, item by item. -/
theorem mem_buildContentHashIndex {file : OutputFile} {contentHash : String} :
    contentHash ∈ buildContentHashIndex file ↔
      (∀ line ∈ file.lines ++ file.tail.toList, line.utf8 = true) ∧
        ∃ line ∈ file.lines ++ file.tail.toList, line.checksumSha256 = some contentHash := by
  unfold buildContentHashIndex
  dsimp only
  split
  · rename_i clean
    rw [List.mem_toFinset, List.mem_filterMap]
    exact ⟨fun found => ⟨List.all_eq_true.mp clean, found⟩, fun found => found.2⟩
  · rename_i dirty
    refine ⟨fun found => absurd found (Finset.notMem_empty _), fun found => ?_⟩
    exact absurd (List.all_eq_true.mpr found.1) dirty

/-! ## Saves of one slot -/

/-- The session's map is the store's, but for records an earlier clock reading left behind. -/
def Agrees (mine stored : DomainRecords) (k : String) : Prop :=
  mine[k]? = stored[k]? ∨ ∃ own held, mine[k]? = some own ∧ stored[k]? = some held ∧
    own.updatedAt < held.updatedAt

theorem validateAndQuarantine_of_valid {records : DomainRecords} (valid : ValidRecords records)
    (k : String) : (validateAndQuarantine records)[k]? = records[k]? := by
  rw [validateAndQuarantine_getElem?]
  cases stored : records[k]? with
  | none => rfl
  | some record => simp [Option.filter, show invariantViolation record = none from valid _ _ stored]

/-- A slot that agrees keeps its stored record through a save. -/
theorem Agrees.mergedEntry {mine stored : DomainRecords} {k : String}
    (agrees : Agrees mine stored k) :
    mergedEntry (fun existing record : RawRecord => decide (existing.updatedAt > record.updatedAt))
      mine[k]? stored[k]? = stored[k]? := by
  rcases agrees with equal | ⟨older, held, inMine, inStored, stamp⟩
  · rw [equal]
    cases stored[k]? with
    | none => rfl
    | some record => simp [KeyedMerge.mergedEntry]
  · rw [inMine, inStored]
    simp [KeyedMerge.mergedEntry, stamp]

/-- A save of a map that agrees everywhere changes nothing. -/
theorem mergePersist_of_agrees_all {mine stored : DomainRecords} (valid : ValidRecords stored)
    (agrees : ∀ k, Agrees mine stored k) : mergePersist mine stored = stored := by
  ext1 k
  rw [mergePersist_getElem?, validateAndQuarantine_of_valid valid, (agrees k).mergedEntry]

/-- A save of a map that agrees with the store elsewhere changes one slot, and that one
unless a younger record is there. -/
theorem mergePersist_of_agrees {mine stored : DomainRecords} (valid : ValidRecords stored)
    {key : String} {record : RawRecord} (own : mine[key]? = some record)
    (agrees : ∀ k, key ≠ k → Agrees mine stored k) :
    mergePersist mine stored =
      if (stored[key]?).any (fun held => decide (record.updatedAt < held.updatedAt)) then stored
      else stored.insert key record := by
  ext1 k
  rw [mergePersist_getElem?, validateAndQuarantine_of_valid valid]
  by_cases same : key = k
  · subst same
    rw [own]
    cases held : stored[key]? with
    | none => simp [mergedEntry]
    | some old =>
        by_cases younger : record.updatedAt < old.updatedAt
        · simp [mergedEntry, younger, held]
        · simp [mergedEntry, younger]
  · rw [(agrees k same).mergedEntry]
    split
    · rfl
    · rw [getElem?_insert_of_eq, if_neg same]

/-- The two saves of a settled slot, when every save succeeds. -/
theorem settle_effects {s : CommitSession} {ctx : ResumeContext} (present : s.ctx = some ctx)
    {key : String} {exported committed : RawRecord}
    (accepted : tryCommitExported exported = some committed) :
    s.settle key exported (true, true) =
      (s.put key committed,
        [.persist (s.put key exported).records true,
          .persist (s.put key committed).records true]) := by
  unfold CommitSession.settle
  rw [accepted]
  simp [CommitSession.save, present]

/-! ## One turn of an item -/

/-- An EXPORTED record of an item that the commit point accepts. -/
structure Settles (contentHash : String) (slot : Option RawRecord) (exported : RawRecord) :
    Prop where
  valid : exported.Valid
  status : exported.status = .exported
  hash : exported.contentHash = some contentHash
  accepted : tryCommitExported exported = some { exported with status := .committed }
  stamp : ∀ held, slot = some held → ¬ exported.updatedAt < held.updatedAt

theorem Settles.of_complete {contentHash : String} {slot : Option RawRecord}
    {exported : RawRecord} (status : exported.status = .exported)
    (meaningful : isBlank exported.url = false)
    (location : exported.outputLocation.isSome = true)
    (hash : exported.contentHash = some contentHash) (noError : exported.lastError = none)
    (attempted : 1 ≤ exported.attempts)
    (stamp : ∀ held, slot = some held → ¬ exported.updatedAt < held.updatedAt) :
    Settles contentHash slot exported where
  valid := valid_of_exported meaningful status location (by rw [hash]; rfl)
  status := status
  hash := hash
  accepted := tryCommitExported_of_complete status meaningful location (by rw [hash]; rfl)
    noError attempted
  stamp := stamp

/-- The slot of an item that no run has exported: empty, or a failure on record. -/
inductive Unexported (env : ItemEnv) : Option RawRecord → Prop
  | absent : Unexported env none
  | failed (record : RawRecord) (valid : record.Valid) (status : record.status = .discovered)
      (noHash : record.contentHash = none)
      (timely : env.answer = .ok →
        record.updatedAt ≤ env.now ∧ record.attempts.toNat + 1 < 2 ^ 32) :
      Unexported env (some record)

theorem Unexported.settles_driven {env : ItemEnv} {slot : Option RawRecord}
    (unexported : Unexported env slot) (ok : env.answer = .ok)
    (url key runId contentHash outputLocation : String) (urlMeaningful : isBlank url = false)
    (keyMeaningful : isBlank key = false) :
    ∃ exported, drivenRecord slot url key runId contentHash outputLocation env.now =
      some exported ∧ Settles contentHash slot exported := by
  cases unexported with
  | absent =>
      simp only [drivenRecord, Option.filter_none, urlMeaningful, keyMeaningful, Bool.or_self,
        Bool.false_eq_true, if_false]
      exact ⟨_, rfl, .of_complete rfl urlMeaningful rfl rfl rfl (UInt32.le_refl _) (by simp)⟩
  | failed record valid status noHash timely =>
      obtain ⟨clock, room⟩ := timely ok
      have kept : (some record).filter (fun record => !record.status.claimsOutput) =
          some record := by
        simp [Option.filter, status, PageStatus.claimsOutput]
      simp only [drivenRecord, kept]
      refine ⟨_, rfl, .of_complete rfl (RawRecord.valid_iff.mp valid).1 rfl rfl rfl
        (one_le_add_one room) ?_⟩
      rintro held ⟨⟩
      exact not_lt.mpr clock

theorem Unexported.failed_failedRecord {env : ItemEnv} {slot : Option RawRecord}
    (unexported : Unexported env slot) (url key runId message : String)
    (errorClass : ErrorClass) (urlMeaningful : isBlank url = false)
    (keyMeaningful : isBlank key = false) :
    ∃ failed, failedRecord slot url key runId errorClass message env.now = some failed ∧
      failed.Valid ∧ failed.status = .discovered ∧ failed.contentHash = none := by
  cases unexported with
  | absent =>
      simp only [failedRecord, urlMeaningful, keyMeaningful, Bool.or_self, Bool.false_eq_true,
        if_false]
      refine ⟨_, rfl, ?_, rfl, rfl⟩
      exact (valid_withFailure_iff (valid_freshRecord urlMeaningful key runId env.now) _ _ _).mpr
        (by simp [freshRecord])
  | failed record valid status noHash timely =>
      refine ⟨_, rfl, ?_, status, noHash⟩
      exact (valid_withFailure_iff valid _ _ _).mpr (by simp [status])

theorem settles_promoted_absent (url key runId contentHash outputLocation : String) (now : Int)
    (urlMeaningful : isBlank url = false) (keyMeaningful : isBlank key = false) :
    ∃ exported, promotedRecord none url key runId contentHash outputLocation now =
      some exported ∧ Settles contentHash none exported := by
  simp only [promotedRecord, urlMeaningful, keyMeaningful, Bool.or_self, Bool.false_eq_true,
    if_false]
  refine ⟨_, rfl, .of_complete rfl urlMeaningful ?_ rfl rfl (UInt32.le_refl _) (by simp)⟩
  simp

theorem settles_promoted_exported {record : RawRecord} (valid : record.Valid)
    (status : record.status = .exported) {contentHash : String}
    (hash : record.contentHash = some contentHash)
    (accepted : tryCommitExported record = some { record with status := .committed })
    (url key runId freshHash outputLocation : String) (now : Int) :
    promotedRecord (some record) url key runId freshHash outputLocation now = some record ∧
      Settles contentHash (some record) record := by
  have table := valid.validate
  rw [status] at table
  refine ⟨by simp [promotedRecord, status, table], valid, status, hash, accepted, ?_⟩
  rintro held ⟨⟩
  exact lt_irrefl _

/-- What the first turn of an item in a resuming run does, with all saves succeeding: it is
skipped as COMMITTED, settled (after an append where it had no line), or failed. -/
inductive Turn (keys : ExportKeys) (s : CommitSession) (item : ScrapedContent) (env : ItemEnv) :
    Nat → CommitSession → List Effect → Prop
  | skipped (record : RawRecord) (found : s.records[keys.itemKey item]? = some record)
      (status : record.status = .committed) : Turn keys s item env 1 (s.claimed keys item) []
  | promoted (exported : RawRecord)
      (settles : Settles (keys.sha256Hex item.content) s.records[keys.itemKey item]? exported) :
      Turn keys s item env 1
        ((s.claimed keys item).put (keys.itemKey item) { exported with status := .committed })
        [.persist ((s.claimed keys item).put (keys.itemKey item) exported).records true,
          .persist ((s.claimed keys item).put (keys.itemKey item)
            { exported with status := .committed }).records true]
  | driven (exported : RawRecord) (ok : env.answer = .ok)
      (settles : Settles (keys.sha256Hex item.content) s.records[keys.itemKey item]? exported) :
      Turn keys s item env 0
        ((s.claimed keys item).put (keys.itemKey item) { exported with status := .committed })
        [.append (keys.itemLine item),
          .persist ((s.claimed keys item).put (keys.itemKey item) exported).records true,
          .persist ((s.claimed keys item).put (keys.itemKey item)
            { exported with status := .committed }).records true]
  | failed (record : RawRecord) (error : ExporterError) (residue : Residue)
      (answer : env.answer = .err error residue) (valid : record.Valid)
      (status : record.status = .discovered) (noHash : record.contentHash = none) :
      Turn keys s item env 0 ((s.claimed keys item).put (keys.itemKey item) record)
        (residue.effects (keys.itemLine item) ++
          [.persist ((s.claimed keys item).put (keys.itemKey item) record).records true])

section OneTurn

variable {s : CommitSession} {ctx : ResumeContext} {item : ScrapedContent} {env : ItemEnv}

/-- A driven item that the exporter accepts settles, one that it refuses fails. -/
theorem turn_of_drive (resuming : Resuming s ctx) (outputPath runId : String)
    (catalog : Catalog keys items) (member : item ∈ items)
    (new : keys.itemPair item ∉ s.driven) (saves : env.saves = (true, true))
    (drive : s.decide keys item.url.str (some (keys.sha256Hex item.content)) = .driveAndCommit)
    (slot : Unexported env s.records[keys.itemKey item]?) :
    Turn keys s item env 0 (processSingleItem keys s item outputPath runId env).1
      (processSingleItem keys s item outputPath runId env).2.1 := by
  have present : (s.claimed keys item).ctx = some ctx := resuming.present
  have urlMeaningful := item.url.meaningful
  have keyMeaningful := catalog.meaningful item member
  have validates := catalog.validates item member
  cases valid : (DocumentChunk.fromScrapedContent item).validate with
  | error e =>
      rw [valid] at validates
      cases validates
  | ok validated =>
      rw [processSingleItem_eq resuming.present]
      unfold CommitSession.route
      rw [if_neg new, drive, valid]
      dsimp only
      cases answer : env.answer with
      | ok =>
          obtain ⟨exported, made, settles⟩ := slot.settles_driven answer _ _ runId
            (keys.sha256Hex item.content) outputPath urlMeaningful keyMeaningful
          simp only [CommitSession.follow, CommitSession.claimed_records, made, saves,
            settle_effects present settles.accepted]
          exact .driven exported answer settles
      | err error residue =>
          obtain ⟨failed, made, failedValid, status, noHash⟩ := slot.failed_failedRecord _ _
            ctx.runId error.toString (classifyExportFailure error) urlMeaningful keyMeaningful
          simp only [CommitSession.follow, CommitSession.claimed_records, made]
          have saved : ((s.claimed keys item).put (keys.itemKey item) failed).save env.saves.1 =
              [.persist ((s.claimed keys item).put (keys.itemKey item) failed).records true] := by
            simp [CommitSession.save, resuming.present, saves]
          rw [saved]
          exact .failed failed error residue answer failedValid status noHash

/-- What an item does in its first turn of a run, stage by stage. -/
theorem turn_of_stage (resuming : Resuming s ctx) (outputPath runId : String)
    (catalog : Catalog keys items) (member : item ∈ items)
    (new : keys.itemPair item ∉ s.driven) (saves : env.saves = (true, true)) {count : Nat}
    (stage : Stage (keys.sha256Hex item.content) s.records[keys.itemKey item]? count)
    (unrecorded : s.records[keys.itemKey item]? = none →
      (keys.sha256Hex item.content ∈ s.hashIndex ↔ count = 1))
    (listed : ∀ record, s.records[keys.itemKey item]? = some record →
      record.status = .exported → keys.sha256Hex item.content ∈ s.hashIndex)
    (timely : ∀ record, s.records[keys.itemKey item]? = some record →
      record.contentHash = none → env.answer = .ok →
        record.updatedAt ≤ env.now ∧ record.attempts.toNat + 1 < 2 ^ 32) :
    Turn keys s item env count (processSingleItem keys s item outputPath runId env).1
      (processSingleItem keys s item outputPath runId env).2.1 := by
  have present : (s.claimed keys item).ctx = some ctx := resuming.present
  have urlMeaningful := item.url.meaningful
  have keyMeaningful := catalog.meaningful item member
  generalize slot : s.records[keys.itemKey item]? = found at stage
  have slotByUrl : s.records[keys.canonicalKey item.url.str]? = found := slot
  cases stage with
  | untouched =>
      have unlisted : keys.sha256Hex item.content ∉ s.hashIndex := by
        simp [unrecorded slot]
      refine turn_of_drive resuming outputPath runId catalog member new saves ?_ ?_
      · rw [resuming.decide_of_absent slot, if_neg unlisted]
      · rw [slot]
        exact .absent
  | flushed =>
      have decision := resuming.decide_of_absent slot (keys.sha256Hex item.content)
      rw [if_pos ((unrecorded slot).mpr rfl)] at decision
      obtain ⟨exported, made, settles⟩ := settles_promoted_absent _ _ ctx.runId
        (keys.sha256Hex item.content) outputPath env.now urlMeaningful keyMeaningful
      rw [processSingleItem_eq resuming.present]
      unfold CommitSession.route
      rw [if_neg new, decision]
      simp only [CommitSession.follow, CommitSession.claimed_records, slot, made, saves,
        settle_effects present settles.accepted]
      exact .promoted exported (by rw [slot]; exact settles)
  | failed record valid status noHash =>
      refine turn_of_drive resuming outputPath runId catalog member new saves ?_ ?_
      · refine resuming.decide_of_open ⟨record, slot, by simp [status], ?_⟩ _
        simp [noHash]
      · rw [slot]
        exact .failed record valid status noHash (timely record slot noHash)
  | exported record valid status hash accepted =>
      have notProven : record.validate .committed ≠ .ok () := by
        intro proven
        have committed := record.status_of_validate proven
        rw [status] at committed
        cases committed
      have decision : s.decide keys item.url.str (some (keys.sha256Hex item.content)) =
          .promoteFromFlushProof := by
        rw [CommitSession.decide_resume resuming.present resuming.resume, slotByUrl]
        simp [notProven, hash, listed record slot status]
      obtain ⟨made, settles⟩ := settles_promoted_exported valid status hash accepted
        item.url.str (keys.itemKey item) ctx.runId (keys.sha256Hex item.content) outputPath env.now
      rw [processSingleItem_eq resuming.present]
      unfold CommitSession.route
      rw [if_neg new, decision]
      simp only [CommitSession.follow, CommitSession.claimed_records, slot, made, saves,
        settle_effects present settles.accepted]
      exact .promoted record (by rw [slot]; exact settles)
  | committed record valid status hash =>
      have proven := valid.validate
      rw [status] at proven
      have decision : s.decide keys item.url.str (some (keys.sha256Hex item.content)) =
          .alreadyCommitted := by
        rw [CommitSession.decide_resume resuming.present resuming.resume, slotByUrl]
        simp [proven]
      rw [processSingleItem_eq resuming.present]
      unfold CommitSession.route
      rw [if_neg new, decision]
      exact .skipped record slot status

/-! ## The world a turn leaves -/

/-- A save whose slot holds nothing younger rewrites that slot of the store. -/
theorem apply_persist_put {w : World} (valid : ValidRecords w.store) {key : String}
    (agrees : ∀ k, key ≠ k → Agrees s.records w.store k) (record : RawRecord) :
    w.apply (.persist (s.put key record).records true) =
      { w with store :=
        if (w.store[key]?).any (fun held => decide (record.updatedAt < held.updatedAt)) then w.store
        else w.store.insert key record } := by
  have own : (s.put key record).records[key]? = some record := by
    rw [CommitSession.put_records_getElem?, if_pos rfl]
  have elsewhere : ∀ k, key ≠ k → Agrees (s.put key record).records w.store k := by
    intro k different
    unfold Agrees
    rw [CommitSession.put_records_getElem?, if_neg different]
    exact agrees k different
  simp only [World.apply, if_true]
  rw [mergePersist_of_agrees valid own elsewhere]

/-- The two saves of a settled item, one after the other. -/
theorem apply_settled {w : World} (valid : ValidRecords w.store) {key contentHash : String}
    (agrees : ∀ k, key ≠ k → Agrees s.records w.store k) {exported : RawRecord}
    (settles : Settles contentHash w.store[key]? exported) :
    w.apply (.persist (s.put key exported).records true) =
        { w with store := w.store.insert key exported } ∧
      World.apply { w with store := w.store.insert key exported }
          (.persist (s.put key { exported with status := .committed }).records true) =
        { w with store := w.store.insert key { exported with status := .committed } } := by
  constructor
  · rw [apply_persist_put valid agrees, if_neg]
    intro younger
    obtain ⟨held, found, stamp⟩ := (Option.any_eq_true _ _).mp younger
    exact settles.stamp held found (of_decide_eq_true stamp)
  · have elsewhere : ∀ k, key ≠ k → Agrees s.records (w.store.insert key exported) k := by
      intro k different
      unfold Agrees
      rw [getElem?_insert_of_eq, if_neg different]
      exact agrees k different
    have stored : ValidRecords (w.store.insert key exported) :=
      AllEntries.insert valid settles.valid
    rw [apply_persist_put (w := { w with store := w.store.insert key exported }) stored elsewhere]
    have equalStamp : ¬ ((w.store.insert key exported)[key]?).any (fun held =>
        decide ({ exported with status := .committed : RawRecord }.updatedAt < held.updatedAt)) =
          true := by
      simp
    rw [if_neg equalStamp]
    congr 1
    ext1 k
    simp only [getElem?_insert_of_eq]
    split <;> rfl

/-- The failure save over whatever the exporter left behind the last line. -/
theorem orderly_failed {w : World} (orderly : Orderly keys items w) (catalog : Catalog keys items)
    (member : item ∈ items) (agrees : ∀ k, keys.itemKey item ≠ k → Agrees s.records w.store k)
    (noLine : w.file.lines.count (keys.itemLine item) = 0) {record : RawRecord}
    (valid : record.Valid) (status : record.status = .discovered)
    (noHash : record.contentHash = none) (tail : Option ExportLine)
    (torn : tail = w.file.tail ∨ ∀ contentHash,
      tail.bind (·.checksumSha256) = some contentHash →
        contentHash = keys.sha256Hex item.content) :
    Orderly keys items (World.apply ⟨⟨w.file.lines, tail⟩, w.store⟩
      (.persist (s.put (keys.itemKey item) record).records true)) := by
  rw [apply_persist_put (w := ⟨⟨w.file.lines, tail⟩, w.store⟩) orderly.valid agrees record]
  dsimp only
  split
  · rename_i younger
    obtain ⟨held, found, -⟩ := (Option.any_eq_true _ _).mp younger
    refine orderly.change catalog member (.inl rfl) (.inl rfl) (orderly.stage item member) ?_
    refine torn.imp_right fun torn contentHash proves => ⟨torn contentHash proves, ?_⟩
    rw [found]
    simp
  · refine orderly.change catalog member (.inl rfl) (.inr ⟨record, valid, rfl⟩) ?_ ?_
    · rw [getElem?_insert_of_eq, if_pos rfl, noLine]
      exact .failed record valid status noHash
    · refine torn.imp_right fun torn contentHash proves => ⟨torn contentHash proves, ?_⟩
      rw [getElem?_insert_of_eq, if_pos rfl]
      simp

/-- A turn cut after any number of its durable steps keeps the world orderly, unless it is
cut between the append and the first save of an item with a failure on record, or between a
whole unterminated line and the save of the first failure. -/
theorem Turn.orderly_take {w : World} {s' : CommitSession} {effects : List Effect}
    (orderly : Orderly keys items w) (catalog : Catalog keys items) (member : item ∈ items)
    (slot : s.records[keys.itemKey item]? = w.store[keys.itemKey item]?)
    (agrees : ∀ k, keys.itemKey item ≠ k → Agrees s.records w.store k)
    (turn : Turn keys s item env (w.file.lines.count (keys.itemLine item)) s' effects)
    (steps : Nat)
    (appendCut : steps = 1 → env.answer = .ok → w.file.lines.count (keys.itemLine item) = 0 →
      w.store[keys.itemKey item]? = none)
    (tornCut : steps = 1 → ∀ error utf8, env.answer = .err error (.torn true utf8) →
      w.file.lines.count (keys.itemLine item) = 0 → w.store[keys.itemKey item]? ≠ none) :
    Orderly keys items (w.applyAll (effects.take steps)) := by
  have stage := orderly.stage item member
  generalize count : w.file.lines.count (keys.itemLine item) = n at turn stage appendCut tornCut
  cases turn with
  | skipped record found status =>
      rw [List.take_nil]
      exact orderly
  | promoted exported settles =>
      rw [slot] at settles
      obtain ⟨first, second⟩ :=
        apply_settled (s := s.claimed keys item) orderly.valid agrees settles
      rcases steps with _ | _ | steps
      · exact orderly
      · simp only [Nat.zero_add, List.take_succ_cons, List.take_zero, World.applyAll_cons, first,
          World.applyAll_nil]
        refine orderly.change catalog member (.inl rfl) (.inr ⟨exported, settles.valid, rfl⟩) ?_
          (.inl rfl)
        rw [getElem?_insert_of_eq, if_pos rfl, count]
        exact .exported exported settles.valid settles.status settles.hash settles.accepted
      · simp only [List.take_succ_cons, List.take_nil, World.applyAll_cons, first, second,
          World.applyAll_nil]
        have committedValid := (tryCommitExported_eq_some.mp settles.accepted).2.2
        refine orderly.change catalog member (.inl rfl) (.inr ⟨_, committedValid, rfl⟩) ?_
          (.inl rfl)
        rw [getElem?_insert_of_eq, if_pos rfl, count]
        exact .committed _ committedValid rfl settles.hash
  | driven exported ok settles =>
      rw [slot] at settles
      have noTail {store : DomainRecords} : ∀ contentHash,
          (none : Option ExportLine).bind (·.checksumSha256) = some contentHash →
            contentHash = keys.sha256Hex item.content ∧ store[keys.itemKey item]? ≠ none := by
        intro contentHash proves
        cases proves
      let flushed := w.apply (.append (keys.itemLine item))
      have one : flushed.file.lines.count (keys.itemLine item) = 1 := by
        simp [flushed, World.apply, count]
      obtain ⟨first, second⟩ := apply_settled (s := s.claimed keys item) (w := flushed)
        orderly.valid agrees settles
      rcases steps with _ | _ | _ | steps
      · exact orderly
      · simp only [Nat.zero_add, List.take_succ_cons, List.take_zero, World.applyAll_cons,
          World.applyAll_nil]
        refine orderly.change catalog member (.inr rfl) (.inl rfl) ?_ (.inr noTail)
        rw [appendCut rfl ok rfl]
        exact one ▸ Stage.flushed
      · simp only [Nat.zero_add, List.take_succ_cons, List.take_zero, World.applyAll_cons, first,
          flushed, World.applyAll_nil]
        refine orderly.change catalog member (.inr rfl) (.inr ⟨exported, settles.valid, rfl⟩) ?_
          (.inr noTail)
        rw [getElem?_insert_of_eq, if_pos rfl]
        exact one ▸ Stage.exported exported settles.valid settles.status settles.hash
          settles.accepted
      · simp only [List.take_succ_cons, List.take_nil, World.applyAll_cons, first, second,
          flushed, World.applyAll_nil]
        have committedValid := (tryCommitExported_eq_some.mp settles.accepted).2.2
        refine orderly.change catalog member (.inr rfl) (.inr ⟨_, committedValid, rfl⟩) ?_
          (.inr noTail)
        rw [getElem?_insert_of_eq, if_pos rfl]
        exact one ▸ Stage.committed _ committedValid rfl settles.hash
  | failed record error residue answer valid status noHash =>
      have saved {tail : Option ExportLine} := orderly_failed (s := s.claimed keys item)
        orderly catalog member agrees count valid status noHash tail
      rcases steps with _ | steps
      · exact orderly
      · cases residue with
        | untouched =>
            simp only [Residue.effects, List.nil_append, List.take_succ_cons, List.take_nil,
              World.applyAll_cons, World.applyAll_nil]
            exact saved (.inl rfl)
        | recovered =>
            have vacuous : ∀ contentHash, (none : Option ExportLine).bind (·.checksumSha256) =
                some contentHash → contentHash = keys.sha256Hex item.content := by
              intro contentHash proves
              cases proves
            rcases steps with _ | steps
            · refine orderly.change catalog member (.inl rfl) (.inl rfl)
                (orderly.stage item member) (.inr fun contentHash proves => ?_)
              cases proves
            · simp only [Residue.effects, List.cons_append, List.nil_append, List.take_succ_cons,
                List.take_nil, World.applyAll_cons, World.applyAll_nil]
              exact saved (.inr vacuous)
        | torn whole utf8 =>
            have own : ∀ contentHash,
                (some (if whole then keys.itemLine item else ⟨none, none, utf8⟩)).bind
                  (·.checksumSha256) = some contentHash →
                whole = true ∧ contentHash = keys.sha256Hex item.content := by
              intro contentHash proves
              cases whole with
              | true => exact ⟨rfl, (Option.some.inj proves).symm⟩
              | false => cases proves
            rcases steps with _ | steps
            · refine orderly.change catalog member (.inl rfl) (.inl rfl)
                (orderly.stage item member) (.inr fun contentHash proves => ?_)
              obtain ⟨rfl, same⟩ := own contentHash proves
              exact ⟨same, tornCut rfl error utf8 answer rfl⟩
            · simp only [Residue.effects, List.cons_append, List.nil_append, List.take_succ_cons,
                List.take_nil, World.applyAll_cons, World.applyAll_nil]
              exact saved (.inr fun contentHash proves => (own contentHash proves).2)

/-- A slot rewritten on both sides agrees, as do the slots that agreed before. -/
theorem agrees_put {w : World} {key : String} {record : RawRecord}
    (agrees : ∀ k, key ≠ k → Agrees s.records w.store k) (k : String) :
    Agrees (s.put key record).records (w.store.insert key record) k := by
  unfold Agrees
  rw [CommitSession.put_records_getElem?, getElem?_insert_of_eq]
  by_cases same : key = k
  · rw [if_pos same, if_pos same]
    exact .inl rfl
  · rw [if_neg same, if_neg same]
    exact agrees k same

theorem applyAll_residue_store (w : World) (line : ExportLine) (residue : Residue) :
    (w.applyAll (residue.effects line)).store = w.store := by
  cases residue <;> rfl

/-- What a whole turn leaves elsewhere, between the session and the store, and behind a
success. -/
theorem Turn.after {w : World} {s' : CommitSession} {effects : List Effect} {count : Nat}
    (valid : ValidRecords w.store)
    (slot : s.records[keys.itemKey item]? = w.store[keys.itemKey item]?)
    (agrees : ∀ k, keys.itemKey item ≠ k → Agrees s.records w.store k)
    (turn : Turn keys s item env count s' effects) :
    (∀ k, keys.itemKey item ≠ k → (w.applyAll effects).store[k]? = w.store[k]?) ∧
      (∀ k, Agrees s'.records (w.applyAll effects).store k) ∧
      (env.answer = .ok → ∃ record, (w.applyAll effects).store[keys.itemKey item]? = some record ∧
        record.status = .committed) := by
  cases turn with
  | skipped record found status =>
      refine ⟨fun _ _ => rfl, fun k => ?_, fun _ => ⟨record, slot ▸ found, status⟩⟩
      by_cases same : keys.itemKey item = k
      · exact same ▸ .inl slot
      · exact agrees k same
  | promoted exported settles =>
      rw [slot] at settles
      obtain ⟨first, second⟩ := apply_settled (s := s.claimed keys item) valid agrees settles
      simp only [World.applyAll_cons, first, second, World.applyAll_nil]
      refine ⟨fun k other => ?_, agrees_put (s := s.claimed keys item) agrees, fun _ => ?_⟩
      · rw [getElem?_insert_of_eq, if_neg other]
      · exact ⟨_, by rw [getElem?_insert_of_eq, if_pos rfl], rfl⟩
  | driven exported ok settles =>
      rw [slot] at settles
      obtain ⟨first, second⟩ := apply_settled (s := s.claimed keys item)
        (w := w.apply (.append (keys.itemLine item))) valid agrees settles
      simp only [World.applyAll_cons, first, second, World.applyAll_nil]
      refine ⟨fun k other => ?_, agrees_put (s := s.claimed keys item) agrees, fun _ => ?_⟩
      · exact getElem?_insert_of_eq.trans (if_neg other)
      · exact ⟨_, getElem?_insert_of_eq.trans (if_pos rfl), rfl⟩
  | failed record error residue answer recordValid status noHash =>
      have torn := applyAll_residue_store w (keys.itemLine item) residue
      rw [World.applyAll_append, World.applyAll_cons, World.applyAll_nil,
        apply_persist_put (s := s.claimed keys item) (by rw [torn]; exact valid)
          (by rw [torn]; exact agrees), torn]
      dsimp only
      split
      · rename_i younger
        obtain ⟨held, found, stamp⟩ := (Option.any_eq_true _ _).mp younger
        refine ⟨fun _ _ => rfl, fun k => ?_, fun ok => ?_⟩
        · unfold Agrees
          rw [CommitSession.put_records_getElem?]
          by_cases same : keys.itemKey item = k
          · rw [if_pos same, ← same]
            exact .inr ⟨record, held, rfl, found, of_decide_eq_true stamp⟩
          · rw [if_neg same]
            exact agrees k same
        · rw [answer] at ok
          cases ok
      · refine ⟨fun k other => ?_, agrees_put (s := s.claimed keys item) agrees, fun ok => ?_⟩
        · rw [getElem?_insert_of_eq, if_neg other]
        · rw [answer] at ok
          cases ok

end OneTurn

end Keys

end Webfang
