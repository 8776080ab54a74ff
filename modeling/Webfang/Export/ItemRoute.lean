import Webfang.Export.SessionSpec

/-!
# The route of one item

`process_single_item` sends an item down one of four routes: it is skipped, promoted,
refused (by validation or by the exporter) or flushed.  Whatever the route, it rewrites at
most the slot of the item's own key and appends at most the item's own line.
-/

namespace Webfang

open KeyedMerge

/-! ## The loop, item by item -/

section Loop

variable {keys : ExportKeys} {outputPath runId : String} {s : CommitSession}
  {result : ScrapedContent} {env : ItemEnv} {rest : List (ScrapedContent × ItemEnv)}

theorem processItems_of_cancelled
    (cancelled : (processSingleItem keys s result outputPath runId env).2.2 = .cancelled) :
    processItems keys outputPath runId s ((result, env) :: rest) =
      ((processSingleItem keys s result outputPath runId env).1,
        (processSingleItem keys s result outputPath runId env).2.1, []) := by
  rw [processItems]
  rcases item : processSingleItem keys s result outputPath runId env with ⟨s', effects, outcome⟩
  rw [item] at cancelled
  cases cancelled
  rfl

/-- An item that is not cancelled hands the session on to the rest of the list. -/
theorem processItems_of_going
    (going : (processSingleItem keys s result outputPath runId env).2.2 ≠ .cancelled) :
    let item := processSingleItem keys s result outputPath runId env
    let later := processItems keys outputPath runId item.1 rest
    processItems keys outputPath runId s ((result, env) :: rest) =
      (later.1, item.2.1 ++ later.2.1,
        if item.2.2 = .driven then result.url.str :: later.2.2 else later.2.2) := by
  rw [processItems]
  rcases item : processSingleItem keys s result outputPath runId env with ⟨s', effects, outcome⟩
  rw [item] at going
  cases outcome with
  | cancelled => exact absurd rfl going
  | driven | skipped => rfl

end Loop

/-- Where `process_single_item` sends an item. -/
inductive Route
  /-- already claimed in this run, or COMMITTED-proven -/
  | skip
  /-- promoted from flush proof -/
  | promote
  /-- refused, with what the exporter left in the file; only a refusal by the exporter is
  followed by a look at the cancellation token -/
  | refuse (error : ExporterError) (residue : Residue) (observes : Bool)
  /-- flushed by the exporter -/
  | flush
  deriving DecidableEq

/-- The line of an item that the exporter accepted. -/
def ExportKeys.itemLine (keys : ExportKeys) (result : ScrapedContent) : ExportLine where
  url := some result.url.str
  checksumSha256 := some (keys.sha256Hex result.content)

/-- The record key of an item. -/
def ExportKeys.itemKey (keys : ExportKeys) (result : ScrapedContent) : String :=
  keys.canonicalKey result.url.str

/-- The `(url, content_hash)` pair of an item. -/
def ExportKeys.itemPair (keys : ExportKeys) (result : ScrapedContent) : String × String :=
  (result.url.str, keys.sha256Hex result.content)

section Keys

variable (keys : ExportKeys)

theorem ExportKeys.serializeLine_of_validate {result : ScrapedContent}
    {validated : DocumentChunkValidated}
    (ok : (DocumentChunk.fromScrapedContent result).validate = .ok validated) :
    keys.serializeLine validated = keys.itemLine result := by
  unfold ExportKeys.serializeLine ExportKeys.itemLine
  rw [DocumentChunk.toDocumentChunk_of_validate ok]
  rfl

/-- The session after the pair of an item is claimed. -/
def CommitSession.claimed (s : CommitSession) (result : ScrapedContent) : CommitSession :=
  (s.claimAppend result.url.str (keys.sha256Hex result.content)).1

/-- The route of an item in a session. -/
def CommitSession.route (s : CommitSession) (result : ScrapedContent) (answer : ExportAnswer) :
    Route :=
  if keys.itemPair result ∈ s.driven then
    .skip
  else
    match s.decide keys result.url.str (some (keys.sha256Hex result.content)) with
    | .alreadyCommitted => .skip
    | .promoteFromFlushProof => .promote
    | .driveAndCommit =>
        match (DocumentChunk.fromScrapedContent result).validate with
        | .error e => .refuse (.invalidConfig e.toString) .untouched false
        | .ok _ =>
            match answer with
            | .ok => .flush
            | .err e residue => .refuse e residue true

variable {keys}

@[simp] theorem CommitSession.claimed_ctx {s : CommitSession} {result : ScrapedContent} :
    (s.claimed keys result).ctx = s.ctx := rfl
@[simp] theorem CommitSession.claimed_records {s : CommitSession} {result : ScrapedContent} :
    (s.claimed keys result).records = s.records := rfl
@[simp] theorem CommitSession.claimed_hashIndex {s : CommitSession} {result : ScrapedContent} :
    (s.claimed keys result).hashIndex = s.hashIndex := rfl
@[simp] theorem CommitSession.claimed_driven {s : CommitSession} {result : ScrapedContent} :
    (s.claimed keys result).driven = insert (keys.itemPair result) s.driven := rfl

/-- The gate reads the records and the hash index, not the pairs claimed so far. -/
theorem CommitSession.decide_claimed {s : CommitSession} {result : ScrapedContent} {url : String}
    {freshHash : Option String} :
    (s.claimed keys result).decide keys url freshHash = s.decide keys url freshHash := rfl

/-! ## What each route presupposes -/

theorem Stateful.isOk_reconcile {target : PageStatus} {record : RawRecord} :
    (Stateful.reconcile target record).isOk = true ↔ record.validate target = .ok () := by
  cases table : record.validate target with
  | ok u => simp [Stateful.reconcile_of_validate table, Except.isOk, Except.toBool]
  | error e => simp [Stateful.reconcile_of_invalid table, Except.isOk, Except.toBool]

/-- The gate of a resuming session, slot by slot. -/
theorem CommitSession.decide_resume {s : CommitSession} {ctx : ResumeContext}
    (present : s.ctx = some ctx) (resume : ctx.resume = true) (url : String)
    (freshHash : Option String) :
    s.decide keys url freshHash =
      match s.records[keys.canonicalKey url]? with
      | some record =>
          if record.validate .committed = .ok () then .alreadyCommitted
          else if record.contentHash.any (· ∈ s.hashIndex) then .promoteFromFlushProof
          else .driveAndCommit
      | none =>
          if freshHash.any (· ∈ s.hashIndex) then .promoteFromFlushProof else .driveAndCommit := by
  unfold CommitSession.decide
  simp only [present, resume, Bool.not_true, Bool.false_eq_true, if_false]
  cases s.records[keys.canonicalKey url]? with
  | none => rfl
  | some record =>
      by_cases proven : record.validate .committed = .ok ()
      · simp [proven, Stateful.isOk_reconcile.mpr proven]
      · have : (Stateful.reconcile .committed record).isOk = false := by
          rw [Bool.eq_false_iff, ne_eq, Stateful.isOk_reconcile]
          exact proven
        simp [proven, this]

/-- A fresh run drives every item. -/
theorem CommitSession.decide_fresh {s : CommitSession} {ctx : ResumeContext}
    (present : s.ctx = some ctx) (fresh : ctx.resume = false) (url : String)
    (freshHash : Option String) : s.decide keys url freshHash = .driveAndCommit := by
  unfold CommitSession.decide
  simp [present, fresh]

theorem CommitSession.route_eq_promote {s : CommitSession} {result : ScrapedContent}
    {answer : ExportAnswer} (route : s.route keys result answer = .promote) :
    keys.itemPair result ∉ s.driven ∧
      s.decide keys result.url.str (some (keys.sha256Hex result.content)) =
        .promoteFromFlushProof := by
  unfold CommitSession.route at route
  split at route
  · cases route
  · rename_i new
    refine ⟨new, ?_⟩
    split at route
    · cases route
    · assumption
    · split at route
      · cases route
      · split at route <;> cases route

theorem CommitSession.route_eq_refuse {s : CommitSession} {result : ScrapedContent}
    {answer : ExportAnswer} {error : ExporterError} {residue : Residue} {observes : Bool}
    (route : s.route keys result answer = .refuse error residue observes) :
    keys.itemPair result ∉ s.driven ∧
      s.decide keys result.url.str (some (keys.sha256Hex result.content)) = .driveAndCommit := by
  unfold CommitSession.route at route
  split at route
  · cases route
  · rename_i new
    refine ⟨new, ?_⟩
    split at route
    · cases route
    · cases route
    · assumption

theorem CommitSession.route_eq_flush {s : CommitSession} {result : ScrapedContent}
    {answer : ExportAnswer} :
    s.route keys result answer = .flush ↔
      keys.itemPair result ∉ s.driven ∧
      s.decide keys result.url.str (some (keys.sha256Hex result.content)) = .driveAndCommit ∧
      (DocumentChunk.fromScrapedContent result).validate.isOk = true ∧ answer = .ok := by
  unfold CommitSession.route
  by_cases old : keys.itemPair result ∈ s.driven
  · simp [old]
  · cases s.decide keys result.url.str (some (keys.sha256Hex result.content)) with
    | alreadyCommitted | promoteFromFlushProof => simp [old]
    | driveAndCommit =>
        cases (DocumentChunk.fromScrapedContent result).validate with
        | error e => simp [old, Except.isOk, Except.toBool]
        | ok validated => cases answer <;> simp [old, Except.isOk, Except.toBool]

/-- The outcome an item of a route reports. -/
def Route.outcome (cancelled : Bool) : Route → SingleItemOutcome
  | .skip => .skipped
  | .promote | .flush => if cancelled then .cancelled else .driven
  | .refuse _ _ observes => if observes && cancelled then .cancelled else .skipped

variable (keys) in
/-- What a session with a store does for an item of a route: its slot after it, and the
durable effects. -/
def CommitSession.follow (s : CommitSession) (result : ScrapedContent)
    (outputPath storeRunId runId : String) (env : ItemEnv) : Route → CommitSession × List Effect
  | .skip => (s, [])
  | .promote =>
      match promotedRecord s.records[keys.itemKey result]? result.url.str (keys.itemKey result)
          storeRunId (keys.sha256Hex result.content) outputPath env.now with
      | none => (s.drop (keys.itemKey result), [])
      | some exported => s.settle (keys.itemKey result) exported env.saves
  | .refuse error residue _ =>
      match failedRecord s.records[keys.itemKey result]? result.url.str (keys.itemKey result)
          storeRunId (classifyExportFailure error) error.toString env.now with
      | none => (s, residue.effects (keys.itemLine result))
      | some failed =>
          (s.put (keys.itemKey result) failed,
            residue.effects (keys.itemLine result) ++
              (s.put (keys.itemKey result) failed).save env.saves.1)
  | .flush =>
      match drivenRecord s.records[keys.itemKey result]? result.url.str (keys.itemKey result)
          runId (keys.sha256Hex result.content) outputPath env.now with
      | none => (s.drop (keys.itemKey result), [.append (keys.itemLine result)])
      | some exported =>
          ((s.settle (keys.itemKey result) exported env.saves).1,
            .append (keys.itemLine result) :: (s.settle (keys.itemKey result) exported env.saves).2)

theorem CommitSession.driveAndCommit_eq {s : CommitSession} {ctx : ResumeContext}
    (present : s.ctx = some ctx) (result : ScrapedContent) (outputPath runId : String)
    (env : ItemEnv) :
    s.driveAndCommit keys result outputPath runId env =
      let route : Route :=
        match (DocumentChunk.fromScrapedContent result).validate with
        | .error e => .refuse (.invalidConfig e.toString) .untouched false
        | .ok _ =>
            match env.answer with
            | .ok => .flush
            | .err e residue => .refuse e residue true
      ((s.follow keys result outputPath ctx.runId runId env route).1,
        (s.follow keys result outputPath ctx.runId runId env route).2,
        route.outcome env.cancelled) := by
  unfold CommitSession.driveAndCommit
  dsimp only
  cases valid : (DocumentChunk.fromScrapedContent result).validate with
  | error e =>
      dsimp only
      rw [CommitSession.failItem_eq keys s _ _ present]
      unfold CommitSession.follow ExportKeys.itemKey
      dsimp only
      cases failedRecord s.records[keys.canonicalKey result.url.str]? result.url.str
          (keys.canonicalKey result.url.str) ctx.runId
          (classifyExportFailure (.invalidConfig e.toString))
          (ExporterError.invalidConfig e.toString).toString env.now with
      | none => rfl
      | some failed => rfl
  | ok validated =>
      dsimp only
      rw [keys.serializeLine_of_validate valid]
      cases env.answer with
      | ok =>
          dsimp only
          rw [CommitSession.commitItem_eq]
          unfold CommitSession.follow ExportKeys.itemKey
          dsimp only
          cases drivenRecord s.records[keys.canonicalKey result.url.str]? result.url.str
              (keys.canonicalKey result.url.str) runId (keys.sha256Hex result.content)
              outputPath env.now with
          | none => rfl
          | some exported => rfl
      | err e residue =>
          dsimp only
          rw [CommitSession.failItem_eq keys s _ _ present]
          unfold CommitSession.follow ExportKeys.itemKey
          dsimp only
          cases failedRecord s.records[keys.canonicalKey result.url.str]? result.url.str
              (keys.canonicalKey result.url.str) ctx.runId (classifyExportFailure e) e.toString
              env.now with
          | none => simp [Route.outcome]
          | some failed => simp [Route.outcome]

/-- An item follows its route. -/
theorem processSingleItem_eq {s : CommitSession} {ctx : ResumeContext} (present : s.ctx = some ctx)
    (result : ScrapedContent) (outputPath runId : String) (env : ItemEnv) :
    processSingleItem keys s result outputPath runId env =
      let route := s.route keys result env.answer
      let followed :=
        (s.claimed keys result).follow keys result outputPath ctx.runId runId env route
      (followed.1, followed.2, route.outcome env.cancelled) := by
  have claimed : s.claimAppend result.url.str (keys.sha256Hex result.content) =
      (s.claimed keys result, decide (keys.itemPair result ∉ s.driven)) := rfl
  unfold processSingleItem CommitSession.route
  dsimp only
  rw [claimed]
  by_cases old : keys.itemPair result ∈ s.driven
  · simp [old, CommitSession.follow, Route.outcome]
  · simp only [old, not_false_eq_true, decide_true, if_false, CommitSession.decide_claimed]
    cases s.decide keys result.url.str (some (keys.sha256Hex result.content)) with
    | alreadyCommitted => rfl
    | promoteFromFlushProof =>
        dsimp only
        rw [CommitSession.promoteFromFlushProof_eq keys _ _ _ _ _ _ (by simpa using present)]
        unfold CommitSession.follow ExportKeys.itemKey
        dsimp only
        cases promotedRecord (s.claimed keys result).records[keys.canonicalKey result.url.str]?
            result.url.str (keys.canonicalKey result.url.str) ctx.runId
            (keys.sha256Hex result.content) outputPath env.now with
        | none => rfl
        | some exported => rfl
    | driveAndCommit => exact CommitSession.driveAndCommit_eq (by simpa using present) ..

/-! ## Frames -/

section Frames

variable {s : CommitSession} {result : ScrapedContent} {outputPath storeRunId runId : String}
  {env : ItemEnv} {route : Route}

@[simp] theorem CommitSession.settle_ctx {key : String} {exported : RawRecord}
    {saves : Bool × Bool} : (s.settle key exported saves).1.ctx = s.ctx := by
  unfold CommitSession.settle
  cases tryCommitExported exported <;> rfl

@[simp] theorem CommitSession.settle_hashIndex {key : String} {exported : RawRecord}
    {saves : Bool × Bool} : (s.settle key exported saves).1.hashIndex = s.hashIndex := by
  unfold CommitSession.settle
  cases tryCommitExported exported <;> rfl

@[simp] theorem CommitSession.settle_driven {key : String} {exported : RawRecord}
    {saves : Bool × Bool} : (s.settle key exported saves).1.driven = s.driven := by
  unfold CommitSession.settle
  cases tryCommitExported exported <;> rfl

/-- The slot a settled record ends in. -/
theorem CommitSession.settle_records_getElem? (key : String) (exported : RawRecord)
    (saves : Bool × Bool) (k : String) :
    (s.settle key exported saves).1.records[k]? =
      if key = k then some ((tryCommitExported exported).getD exported) else s.records[k]? := by
  unfold CommitSession.settle
  cases tryCommitExported exported <;> exact CommitSession.put_records_getElem? ..

/-- No route touches the context, the hash index or the claimed pairs. -/
theorem CommitSession.follow_frame :
    (s.follow keys result outputPath storeRunId runId env route).1.ctx = s.ctx ∧
      (s.follow keys result outputPath storeRunId runId env route).1.hashIndex = s.hashIndex ∧
      (s.follow keys result outputPath storeRunId runId env route).1.driven = s.driven := by
  unfold CommitSession.follow
  cases route with
  | skip => exact ⟨rfl, rfl, rfl⟩
  | promote => dsimp only; split <;> simp
  | refuse error residue observes => dsimp only; split <;> simp
  | flush => dsimp only; split <;> simp

/-- A route rewrites no slot but that of the item's key. -/
theorem CommitSession.follow_records_of_ne {k : String} (other : keys.itemKey result ≠ k) :
    (s.follow keys result outputPath storeRunId runId env route).1.records[k]? =
      s.records[k]? := by
  unfold CommitSession.follow
  cases route with
  | skip => rfl
  | promote =>
      dsimp only
      split
      · rw [CommitSession.drop_records_getElem?, if_neg other]
      · rw [CommitSession.settle_records_getElem?, if_neg other]
  | refuse error residue observes =>
      dsimp only
      split
      · rfl
      · rw [CommitSession.put_records_getElem?, if_neg other]
  | flush =>
      dsimp only
      split
      · rw [CommitSession.drop_records_getElem?, if_neg other]
      · rw [CommitSession.settle_records_getElem?, if_neg other]

theorem processSingleItem_ctx {ctx : ResumeContext} (present : s.ctx = some ctx) :
    (processSingleItem keys s result outputPath runId env).1.ctx = some ctx := by
  rw [processSingleItem_eq present]
  exact CommitSession.follow_frame.1.trans present

end Frames

end Keys

/-! ## What the effects append and persist -/

/-- The line an effect appends. -/
def Effect.line? : Effect → Option ExportLine
  | .append line => some line
  | _ => none

/-- The lines a run of effects appends, in order. -/
def appendedLines (effects : List Effect) : List ExportLine := effects.filterMap Effect.line?

@[simp] theorem appendedLines_nil : appendedLines [] = [] := rfl

@[simp] theorem appendedLines_cons_append (line : ExportLine) (effects : List Effect) :
    appendedLines (.append line :: effects) = line :: appendedLines effects := rfl

@[simp] theorem appendedLines_cons_tear (tail : Option ExportLine) (effects : List Effect) :
    appendedLines (.tear tail :: effects) = appendedLines effects := rfl

@[simp] theorem appendedLines_cons_persist (records : DomainRecords) (saved : Bool)
    (effects : List Effect) :
    appendedLines (.persist records saved :: effects) = appendedLines effects := rfl

theorem appendedLines_append (before after : List Effect) :
    appendedLines (before ++ after) = appendedLines before ++ appendedLines after :=
  List.filterMap_append

@[simp] theorem appendedLines_save (s : CommitSession) (saved : Bool) :
    appendedLines (s.save saved) = [] := by
  unfold CommitSession.save
  split <;> rfl

@[simp] theorem appendedLines_residue (line : ExportLine) (residue : Residue) :
    appendedLines (residue.effects line) = [] := by
  cases residue <;> rfl

@[simp] theorem appendedLines_settle (s : CommitSession) (key : String) (exported : RawRecord)
    (saves : Bool × Bool) : appendedLines (s.settle key exported saves).2 = [] := by
  unfold CommitSession.settle
  cases tryCommitExported exported with
  | none => simp
  | some committed => simp [appendedLines_append]

/-- Every map the effects persist satisfies `P` of the lines in the file by then. -/
def EffectsKeep (P : List ExportLine → String → RawRecord → Prop) :
    List ExportLine → List Effect → Prop
  | _, [] => True
  | lines, .append line :: effects => EffectsKeep P (lines ++ [line]) effects
  | lines, .tear _ :: effects => EffectsKeep P lines effects
  | lines, .persist records _ :: effects =>
      AllEntries (P lines) records ∧ EffectsKeep P lines effects

section Rules

variable {P : List ExportLine → String → RawRecord → Prop} {lines : List ExportLine}

theorem EffectsKeep.append {before after : List Effect} :
    EffectsKeep P lines (before ++ after) ↔
      EffectsKeep P lines before ∧ EffectsKeep P (lines ++ appendedLines before) after := by
  induction before generalizing lines with
  | nil => simp [EffectsKeep]
  | cons effect before ih =>
      cases effect with
      | append line => simp [EffectsKeep, ih]
      | tear tail =>
          exact ih
      | persist records saved =>
          simp only [List.cons_append, EffectsKeep, ih, and_assoc]
          rfl

theorem EffectsKeep.take {effects : List Effect} (keep : EffectsKeep P lines effects) (n : Nat) :
    EffectsKeep P lines (effects.take n) := by
  rw [← List.take_append_drop n effects, EffectsKeep.append] at keep
  exact keep.1

theorem EffectsKeep.save {s : CommitSession} (records : AllEntries (P lines) s.records)
    (saved : Bool) : EffectsKeep P lines (s.save saved) := by
  unfold CommitSession.save
  split
  · exact ⟨records, trivial⟩
  · trivial

theorem EffectsKeep.residue (line : ExportLine) (residue : Residue) :
    EffectsKeep P lines (residue.effects line) := by
  cases residue <;> trivial

theorem CommitSession.put_keeps {s : CommitSession} (records : AllEntries (P lines) s.records)
    {key : String} {record : RawRecord} (new : P lines key record) :
    AllEntries (P lines) (s.put key record).records :=
  records.insert new

/-- A settled slot keeps what its EXPORTED record and the COMMITTED successor satisfy. -/
theorem CommitSession.settle_keeps {s : CommitSession} (records : AllEntries (P lines) s.records)
    {key : String} {exported : RawRecord} (new : P lines key exported)
    (committed : ∀ successor, tryCommitExported exported = some successor → P lines key successor)
    (saves : Bool × Bool) :
    AllEntries (P lines) (s.settle key exported saves).1.records ∧
      EffectsKeep P lines (s.settle key exported saves).2 := by
  unfold CommitSession.settle
  cases accepted : tryCommitExported exported with
  | none => exact ⟨put_keeps records new, .save (put_keeps records new) _⟩
  | some successor =>
      have next := committed successor accepted
      refine ⟨put_keeps records next, EffectsKeep.append.mpr ⟨.save (put_keeps records new) _, ?_⟩⟩
      rw [appendedLines_save, List.append_nil]
      exact .save (put_keeps records next) _

/-- What holds of the record an item writes on its route holds of every map it persists. -/
theorem CommitSession.follow_keeps (lines : List ExportLine) {keys : ExportKeys} {s : CommitSession}
    {result : ScrapedContent} {outputPath storeRunId runId : String} {env : ItemEnv}
    {route : Route} (records : AllEntries (P lines) s.records)
    (grow : ∀ line k r, P lines k r → P (lines ++ [line]) k r)
    (committed : ∀ lines k e c, P lines k e → tryCommitExported e = some c → P lines k c)
    (promoted : route = .promote → ∀ e,
      promotedRecord s.records[keys.itemKey result]? result.url.str (keys.itemKey result)
        storeRunId (keys.sha256Hex result.content) outputPath env.now = some e →
      P lines (keys.itemKey result) e)
    (failed : ∀ error residue observes, route = .refuse error residue observes → ∀ f,
      failedRecord s.records[keys.itemKey result]? result.url.str (keys.itemKey result)
        storeRunId (classifyExportFailure error) error.toString env.now = some f →
      P lines (keys.itemKey result) f)
    (driven : route = .flush → ∀ e,
      drivenRecord s.records[keys.itemKey result]? result.url.str (keys.itemKey result)
        runId (keys.sha256Hex result.content) outputPath env.now = some e →
      P (lines ++ [keys.itemLine result]) (keys.itemKey result) e) :
    AllEntries
        (P (lines ++ appendedLines (s.follow keys result outputPath storeRunId runId env route).2))
        (s.follow keys result outputPath storeRunId runId env route).1.records ∧
      EffectsKeep P lines (s.follow keys result outputPath storeRunId runId env route).2 := by
  unfold CommitSession.follow
  cases route with
  | skip => simpa [EffectsKeep] using records
  | promote =>
      cases made : promotedRecord s.records[keys.itemKey result]? result.url.str
          (keys.itemKey result) storeRunId (keys.sha256Hex result.content) outputPath env.now with
      | none =>
          simp only [appendedLines_nil, List.append_nil]
          exact ⟨records.erase, trivial⟩
      | some exported =>
          simp only [appendedLines_settle, List.append_nil]
          exact settle_keeps records (promoted rfl exported made)
            (fun c => committed _ _ _ c (promoted rfl exported made)) _
  | refuse error residue observes =>
      cases made : failedRecord s.records[keys.itemKey result]? result.url.str
          (keys.itemKey result) storeRunId (classifyExportFailure error) error.toString env.now with
      | none =>
          simp only [made, appendedLines_residue, List.append_nil]
          exact ⟨records, .residue _ _⟩
      | some f =>
          have new := put_keeps records (failed error residue observes rfl f made)
          simp only [made, appendedLines_append, appendedLines_residue, appendedLines_save,
            List.append_nil]
          refine ⟨new, EffectsKeep.append.mpr ⟨.residue _ _, ?_⟩⟩
          rw [appendedLines_residue, List.append_nil]
          exact .save new _
  | flush =>
      have grown : AllEntries (P (lines ++ [keys.itemLine result])) s.records :=
        records.mono (grow _)
      cases made : drivenRecord s.records[keys.itemKey result]? result.url.str
          (keys.itemKey result) runId (keys.sha256Hex result.content) outputPath env.now with
      | none =>
          simp only [appendedLines_cons_append, appendedLines_nil]
          exact ⟨grown.erase, trivial⟩
      | some exported =>
          simp only [appendedLines_cons_append, appendedLines_settle]
          exact settle_keeps grown (driven rfl exported made)
            (fun c => committed _ _ _ c (driven rfl exported made)) _

end Rules

end Webfang
