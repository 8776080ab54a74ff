import Webfang.Export.ExportSystem

/-!
# What the session hands to the store

A load keeps only valid records, and every writer turns a valid record into a valid one,
except that `fail_item` stamps a `last_error` on whatever record it finds.  On a COMMITTED
record, which only a fresh run drives again, that is an impossible state: the next load
drops it.
-/

namespace Webfang

open KeyedMerge

/-- Every record of the map is one the next load keeps. -/
def ValidRecords (records : DomainRecords) : Prop :=
  AllEntries (fun _ record => record.Valid) records

/-- Every map the effects hand to `merge_persist` is valid. -/
def PersistsValid (effects : List Effect) : Prop :=
  ∀ records saved, .persist records saved ∈ effects → ValidRecords records

/-! ## Records -/

theorem valid_freshRecord {url : String} (meaningful : isBlank url = false)
    (canonicalUrl runId : String) (now : Int) : (freshRecord url canonicalUrl runId now).Valid := by
  rw [RawRecord.valid_iff]
  refine ⟨meaningful, fun claims => ?_, fun committed => ?_⟩
  · cases claims
  · cases committed

/-- An EXPORTED record with a page, an output location and a content hash is valid. -/
theorem valid_of_exported {record : RawRecord} (meaningful : isBlank record.url = false)
    (exported : record.status = .exported) (location : record.outputLocation.isSome = true)
    (hash : record.contentHash.isSome = true) : record.Valid := by
  rw [RawRecord.valid_iff]
  refine ⟨meaningful, fun _ _ => ⟨location, hash⟩, fun committed => ?_⟩
  rw [exported] at committed
  cases committed

theorem valid_drivenRecord {found : Option RawRecord}
    {url key runId contentHash outputLocation : String} {now : Int} {record : RawRecord}
    (made : drivenRecord found url key runId contentHash outputLocation now = some record)
    (valid : ∀ old, found = some old → old.Valid) : record.Valid := by
  unfold drivenRecord at made
  dsimp only at made
  split at made
  · rename_i old active
    cases made
    have oldValid := valid old (Option.filter_eq_some_iff.mp active).1
    exact valid_of_exported (RawRecord.valid_iff.mp oldValid).1 rfl rfl rfl
  · split at made
    · cases made
    · rename_i meaningful
      simp only [Bool.or_eq_true, not_or, Bool.not_eq_true] at meaningful
      cases made
      exact valid_of_exported meaningful.1 rfl rfl rfl

theorem valid_promotedRecord {found : Option RawRecord}
    {url key runId contentHash outputLocation : String} {now : Int} {record : RawRecord}
    (made : promotedRecord found url key runId contentHash outputLocation now = some record)
    (valid : ∀ old, found = some old → old.Valid) : record.Valid := by
  unfold promotedRecord at made
  dsimp only at made
  split at made
  · split at made
    · cases made
    · rename_i meaningful
      simp only [Bool.or_eq_true, not_or, Bool.not_eq_true] at meaningful
      cases made
      exact valid_of_exported meaningful.1 rfl (by simp) rfl
  · rename_i old
    have oldValid := valid old rfl
    split at made
    · cases made
      exact oldValid
    · rename_i broken
      split at made
      · cases made
        exact valid_of_exported (RawRecord.valid_iff.mp oldValid).1 rfl (by simp) rfl
      · split at made
        · cases made
        · rename_i meaningful
          simp only [Bool.or_eq_true, not_or, Bool.not_eq_true] at meaningful
          split at made
          · rename_i exported
            have table := oldValid.validate
            rw [exported] at table
            exact absurd ⟨exported, table⟩ broken
          · cases made
            exact valid_of_exported meaningful.1 rfl (by simp) rfl

/-- A failure keeps a record valid unless the record was COMMITTED. -/
theorem valid_withFailure_iff {record : RawRecord} (valid : record.Valid)
    (errorClass : ErrorClass) (message : String) (now : Int) :
    (record.withFailure errorClass message now).Valid ↔ record.status ≠ .committed := by
  have facts := RawRecord.valid_iff.mp valid
  rw [RawRecord.valid_iff]
  constructor
  · rintro ⟨-, -, committed⟩ status
    have cleared := (committed status).1
    cases cleared
  · intro status
    exact ⟨facts.1, facts.2.1, fun committed => absurd committed status⟩

/-! ## One item -/

section Keys

variable (keys : ExportKeys)

/-- The item is refused, by validation or by the exporter, while its record is COMMITTED. -/
def FailsCommitted (s : CommitSession) (result : ScrapedContent) (answer : ExportAnswer) : Prop :=
  (∃ error residue observes, s.route keys result answer = .refuse error residue observes) ∧
    ∃ record, s.records[keys.itemKey result]? = some record ∧ record.status = .committed

variable {keys}

theorem persistsValid_of_keep {effects : List Effect} (lines : List ExportLine)
    (keep : EffectsKeep (fun _ _ record => record.Valid) lines effects) :
    PersistsValid effects := by
  induction effects generalizing lines with
  | nil => intro records saved member; cases member
  | cons effect effects ih =>
      intro records saved member
      rcases List.mem_cons.mp member with rfl | later
      · exact keep.1
      · cases effect with
        | append line => exact ih _ keep records saved later
        | tear tail => exact ih _ keep records saved later
        | persist records' saved' => exact ih _ keep.2 records saved later

theorem persistsValid_append {before after : List Effect} :
    PersistsValid (before ++ after) ↔ PersistsValid before ∧ PersistsValid after := by
  unfold PersistsValid
  simp only [List.mem_append]
  constructor
  · intro all
    exact ⟨fun records saved member => all records saved (.inl member),
      fun records saved member => all records saved (.inr member)⟩
  · rintro ⟨first, second⟩ records saved (member | member)
    · exact first records saved member
    · exact second records saved member

theorem persistsValid_save {s : CommitSession} (valid : ValidRecords s.records) (saved : Bool) :
    PersistsValid (s.save saved) :=
  persistsValid_of_keep [] (EffectsKeep.save (P := fun _ _ record => record.Valid) valid saved)

/-- An item that does not fail a COMMITTED record keeps everything valid. -/
theorem process_keeps_records_valid {s : CommitSession} {ctx : ResumeContext}
    (present : s.ctx = some ctx) (valid : ValidRecords s.records) (outputPath runId : String)
    {result : ScrapedContent} {env : ItemEnv}
    (spared : ¬ FailsCommitted keys s result env.answer) :
    ValidRecords (processSingleItem keys s result outputPath runId env).1.records ∧
      PersistsValid (processSingleItem keys s result outputPath runId env).2.1 := by
  rw [processSingleItem_eq present]
  refine And.imp_right (persistsValid_of_keep [])
    (CommitSession.follow_keeps [] (P := fun _ _ record => record.Valid) valid ?_ ?_ ?_ ?_ ?_)
  · exact fun _ _ _ old => old
  · exact fun _ _ _ _ _ accepted => (tryCommitExported_eq_some.mp accepted).2.2
  · exact fun _ exported made => valid_promotedRecord made fun old found => valid _ _ found
  · intro error residue observes refused failed made
    cases found : s.records[keys.itemKey result]? with
    | none =>
        rw [CommitSession.claimed_records, found] at made
        unfold failedRecord at made
        dsimp only at made
        split at made
        · cases made
        · rename_i meaningful
          simp only [Bool.or_eq_true, not_or, Bool.not_eq_true] at meaningful
          cases made
          have fresh := valid_freshRecord meaningful.1 (keys.itemKey result) ctx.runId env.now
          exact (valid_withFailure_iff fresh _ _ _).mpr (by simp [freshRecord])
    | some old =>
        rw [CommitSession.claimed_records, found] at made
        cases made
        refine (valid_withFailure_iff (valid _ _ found) _ _ _).mpr fun committed => ?_
        exact spared ⟨⟨error, residue, observes, refused⟩, old, found, committed⟩
  · exact fun _ exported made => valid_drivenRecord made fun old found => valid _ _ found

/-- An item that fails a COMMITTED record hands an impossible record to the store. -/
theorem process_persists_invalid {s : CommitSession} {ctx : ResumeContext}
    (present : s.ctx = some ctx) (outputPath runId : String) {result : ScrapedContent}
    {env : ItemEnv} (failed : FailsCommitted keys s result env.answer) :
    ¬ PersistsValid (processSingleItem keys s result outputPath runId env).2.1 := by
  obtain ⟨⟨error, residue, observes, refused⟩, record, found, committed⟩ := failed
  intro all
  rw [processSingleItem_eq present, refused] at all
  let stamped := record.withFailure (classifyExportFailure error) error.toString env.now
  have member : Effect.persist ((s.claimed keys result).put (keys.itemKey result) stamped).records
      env.saves.1 ∈ ((s.claimed keys result).follow keys result outputPath ctx.runId runId env
        (.refuse error residue observes)).2 := by
    simp [CommitSession.follow, found, failedRecord, CommitSession.save, present, stamped]
  have kept := all _ _ member (keys.itemKey result) stamped
    (by rw [CommitSession.put_records_getElem?, if_pos rfl])
  have cleared := ((RawRecord.valid_iff.mp kept).2.2 committed).1
  cases cleared

/-! ## The whole call -/

variable (keys) in
/-- No item of the call fails a record that is COMMITTED when its turn comes. -/
def NeverFailsCommitted (outputPath runId : String) :
    CommitSession → List (ScrapedContent × ItemEnv) → Prop
  | _, [] => True
  | s, (result, env) :: rest =>
      ¬ FailsCommitted keys s result env.answer ∧
        let item := processSingleItem keys s result outputPath runId env
        (item.2.2 ≠ .cancelled → NeverFailsCommitted outputPath runId item.1 rest)

/-- From any valid record map, every map a call hands to the store, its final one included,
is valid exactly if no item fails a COMMITTED record. -/
theorem persisted_records_valid_iff {s : CommitSession} {ctx : ResumeContext}
    (present : s.ctx = some ctx) (valid : ValidRecords s.records) (outputPath runId : String)
    (items : List (ScrapedContent × ItemEnv)) (finalSave : Bool) :
    let call := processItems keys outputPath runId s items
    PersistsValid (call.2.1 ++ call.1.save finalSave) ↔
      NeverFailsCommitted keys outputPath runId s items := by
  induction items generalizing s with
  | nil =>
      exact ⟨fun _ => trivial, fun _ => persistsValid_save valid finalSave⟩
  | cons head rest ih =>
      obtain ⟨result, env⟩ := head
      dsimp only
      by_cases stop : (processSingleItem keys s result outputPath runId env).2.2 = .cancelled
      · rw [processItems_of_cancelled stop, persistsValid_append, NeverFailsCommitted]
        by_cases failed : FailsCommitted keys s result env.answer
        · simp [failed, process_persists_invalid present outputPath runId failed]
        · obtain ⟨nextValid, persisted⟩ :=
            process_keeps_records_valid present valid outputPath runId failed
          simp only [failed, persisted, stop, not_false_eq_true, true_and, ne_eq,
            not_true_eq_false, false_implies, iff_true]
          exact persistsValid_save nextValid finalSave
      · rw [processItems_of_going stop, NeverFailsCommitted]
        dsimp only
        rw [List.append_assoc, persistsValid_append]
        by_cases failed : FailsCommitted keys s result env.answer
        · simp [failed, process_persists_invalid present outputPath runId failed]
        · obtain ⟨nextValid, persisted⟩ :=
            process_keeps_records_valid present valid outputPath runId failed
          have later := ih (processSingleItem_ctx present) nextValid
          dsimp only at later
          simp only [failed, persisted, stop, not_false_eq_true, true_and, ne_eq, true_implies]
          exact later

end Keys

/-! ## A COMMITTED record met again -/

def committedPage : RawRecord where
  url := "a"
  canonicalUrl := "a"
  runId := "r1"
  contentHash := some "x"
  attempts := 1
  status := .committed
  lastError := none
  outputLocation := some "out"
  updatedAt := 1

/-- A session over a store that holds the COMMITTED record of page `a`. -/
def reopened (resume : Bool) : CommitSession :=
  .open (some ⟨"r2", resume⟩) ((∅ : DomainRecords).insert "a" committedPage) .empty

theorem valid_reopened (resume : Bool) : ValidRecords (reopened resume).records :=
  AllEntries.insert AllEntries.empty (by decide)

theorem persisted_records_valid_iff_resumed :
    PersistsValid
        ((processItems plainKeys "out" "r2" (reopened true)
            [(pageOf "a" "" (by decide), fine 2)]).2.1 ++
          (processItems plainKeys "out" "r2" (reopened true)
            [(pageOf "a" "" (by decide), fine 2)]).1.save true) ↔
      NeverFailsCommitted plainKeys "out" "r2" (reopened true)
        [(pageOf "a" "" (by decide), fine 2)] :=
  persisted_records_valid_iff rfl (valid_reopened true) "out" "r2" _ true

/-- A fresh run refuses the empty page `a` and persists its COMMITTED record with the error. -/
theorem fresh_run_persists_invalid_commit :
    ValidRecords (reopened false).records ∧
      ¬ PersistsValid
        ((processItems plainKeys "out" "r2" (reopened false)
            [(pageOf "a" "" (by decide), fine 2)]).2.1 ++
          (processItems plainKeys "out" "r2" (reopened false)
            [(pageOf "a" "" (by decide), fine 2)]).1.save true) := by
  refine ⟨valid_reopened false, fun all => ?_⟩
  have refused : (reopened false).route plainKeys (pageOf "a" "" (by decide)) .ok =
      .refuse (.invalidConfig "empty_content") .untouched false := by decide +kernel
  have going : (processSingleItem plainKeys (reopened false) (pageOf "a" "" (by decide)) "out"
      "r2" (fine 2)).2.2 ≠ .cancelled := by decide +kernel
  rw [processItems_of_going going] at all
  dsimp only at all
  rw [List.append_assoc, persistsValid_append] at all
  have stored : (reopened false).records["a"]? = some committedPage :=
    Std.ExtTreeMap.getElem?_insert_self
  exact process_persists_invalid rfl "out" "r2"
    ⟨⟨_, _, _, refused⟩, committedPage, stored, rfl⟩ all.1

end Webfang
