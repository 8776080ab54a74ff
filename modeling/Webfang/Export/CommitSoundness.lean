import Webfang.Export.ExportSystem

/-!
# COMMITTED records and the lines behind them

A COMMITTED record claims that its page's line, with its content hash, is in the output
file.  Every record this code writes is either a DISCOVERED one without a hash or backed by
such a line (`Backed`), with one exception: a promotion without a record trusts the hash
index alone, and the index forgets which page a hash was flushed for and whether its line
was ever terminated.
-/

namespace Webfang

open KeyedMerge StepSystem

section Keys

variable (keys : ExportKeys)

/-- A terminated line of the page with this content hash is among `lines`. -/
def Flushed (lines : List ExportLine) (key contentHash : String) : Prop :=
  ∃ line ∈ lines, line.url.map keys.canonicalKey = some key ∧
    line.checksumSha256 = some contentHash

instance (lines : List ExportLine) (key contentHash : String) :
    Decidable (Flushed keys lines key contentHash) :=
  inferInstanceAs (Decidable (∃ line ∈ lines, _))

/-- Every COMMITTED record of the store has its line in the output file. -/
def World.CommittedSound (w : World) : Prop :=
  ∀ key record, w.store[key]? = some record → record.status = .committed →
    ∃ contentHash, record.contentHash = some contentHash ∧
      Flushed keys w.file.lines key contentHash

/-- The step does not promote an item that has no record on the strength of a hash that no
terminated line of the item's own page carries. -/
def PromotionProven (s : ExportState) : ExportAction → Prop
  | .item result _ | .kill result _ _ =>
      ∀ run ∈ s.running, run.ctx.resume = true →
        keys.itemPair result ∉ run.session.driven →
        run.session.records[keys.itemKey result]? = none →
        keys.sha256Hex result.content ∈ run.session.hashIndex →
        Flushed keys s.world.file.lines (keys.itemKey result) (keys.sha256Hex result.content)
  | _ => True

instance (s : ExportState) : (action : ExportAction) → Decidable (PromotionProven keys s action)
  | .item _ _ | .kill _ _ _ => inferInstanceAs (Decidable (∀ run ∈ s.running, _))
  | .openSession _ _ _ | .finish _ => .isTrue True.intro

/-- A record this code left at `key`: fresh and without a hash, or backed by a line. -/
def Backed (lines : List ExportLine) (key : String) (record : RawRecord) : Prop :=
  record.status = .discovered ∧ record.contentHash = none ∨
    record.status.claimsOutput = true ∧ record.outputLocation.isSome = true ∧
      ∃ contentHash, record.contentHash = some contentHash ∧ Flushed keys lines key contentHash

variable {keys}

theorem Flushed.grow {lines : List ExportLine} {key contentHash : String}
    (flushed : Flushed keys lines key contentHash) (line : ExportLine) :
    Flushed keys (lines ++ [line]) key contentHash := by
  obtain ⟨proof, member, same⟩ := flushed
  exact ⟨proof, List.mem_append_left _ member, same⟩

/-- An appended line proves the flush of its item. -/
theorem flushed_itemLine (lines : List ExportLine) (result : ScrapedContent) :
    Flushed keys (lines ++ [keys.itemLine result]) (keys.itemKey result)
      (keys.sha256Hex result.content) :=
  ⟨keys.itemLine result, List.mem_append_right _ (List.mem_singleton.mpr rfl), rfl, rfl⟩

theorem Backed.grow {lines : List ExportLine} {key : String} {record : RawRecord}
    (backed : Backed keys lines key record) (line : ExportLine) :
    Backed keys (lines ++ [line]) key record := by
  rcases backed with fresh | ⟨claims, location, contentHash, stamped, flushed⟩
  · exact .inl fresh
  · exact .inr ⟨claims, location, contentHash, stamped, flushed.grow line⟩

/-- The commit point changes the status only, so the backing carries over. -/
theorem Backed.commit {lines : List ExportLine} {key : String} {exported committed : RawRecord}
    (backed : Backed keys lines key exported)
    (accepted : tryCommitExported exported = some committed) :
    Backed keys lines key committed := by
  obtain ⟨status, rfl, -⟩ := tryCommitExported_eq_some.mp accepted
  rcases backed with ⟨fresh, -⟩ | ⟨-, rest⟩
  · rw [status] at fresh
    cases fresh
  · exact .inr ⟨rfl, rest⟩

/-- A backed EXPORTED record passes the load-time table. -/
theorem Backed.validate_exported {lines : List ExportLine} {key : String} {record : RawRecord}
    (backed : Backed keys lines key record) (exported : record.status = .exported) :
    record.validate .exported = .ok () := by
  rcases backed with ⟨fresh, -⟩ | ⟨-, location, contentHash, stamped, -⟩
  · rw [exported] at fresh
    cases fresh
  · have noLocation : record.outputLocation.isNone = false := by
      simpa [Option.isNone_eq_false_iff] using location
    simp [RawRecord.validate, exported, noLocation, stamped]

/-! ## The three writers -/

theorem backed_drivenRecord {lines : List ExportLine} {found : Option RawRecord}
    {url key runId contentHash outputLocation : String} {now : Int} {record : RawRecord}
    (made : drivenRecord found url key runId contentHash outputLocation now = some record)
    (flushed : Flushed keys lines key contentHash) : Backed keys lines key record := by
  unfold drivenRecord at made
  dsimp only at made
  split at made
  · cases made
    exact .inr ⟨rfl, rfl, contentHash, rfl, flushed⟩
  · split at made
    · cases made
    · cases made
      exact .inr ⟨rfl, rfl, contentHash, rfl, flushed⟩

theorem backed_failedRecord {lines : List ExportLine} {found : Option RawRecord}
    {url key runId message : String} {errorClass : ErrorClass} {now : Int} {record : RawRecord}
    (made : failedRecord found url key runId errorClass message now = some record)
    (backed : ∀ old, found = some old → Backed keys lines key old) :
    Backed keys lines key record := by
  unfold failedRecord at made
  split at made
  · cases made
    rename_i old
    exact backed old rfl
  · split at made
    · cases made
    · cases made
      exact .inl ⟨rfl, rfl⟩

/-- A promotion keeps a backed EXPORTED record as it is, and stamps a fresh one with a hash
that has to be flushed. -/
theorem backed_promotedRecord {lines : List ExportLine} {found : Option RawRecord}
    {url key runId contentHash outputLocation : String} {now : Int} {record : RawRecord}
    (made : promotedRecord found url key runId contentHash outputLocation now = some record)
    (backed : ∀ old, found = some old → Backed keys lines key old ∧ old.status = .exported)
    (flushed : found = none → Flushed keys lines key contentHash) :
    Backed keys lines key record := by
  cases found with
  | none =>
      unfold promotedRecord at made
      dsimp only at made
      split at made
      · cases made
      · cases made
        exact .inr ⟨rfl, by simp, contentHash, rfl, flushed rfl⟩
  | some old =>
      obtain ⟨oldBacked, exported⟩ := backed old rfl
      unfold promotedRecord at made
      dsimp only at made
      rw [if_pos ⟨exported, oldBacked.validate_exported exported⟩] at made
      cases made
      exact oldBacked

/-! ## One item -/

/-- In a resuming session every COMMITTED record is valid, so the gate skips it. -/
def CommittedValid (_ : String) (record : RawRecord) : Prop :=
  record.status = .committed → record.Valid

/-- A record the resume gate did not skip is not COMMITTED. -/
theorem status_ne_committed_of_decide {s : CommitSession} {ctx : ResumeContext}
    (present : s.ctx = some ctx) (resume : ctx.resume = true)
    (valid : AllEntries CommittedValid s.records) {url : String} {freshHash : Option String}
    (passed : s.decide keys url freshHash ≠ .alreadyCommitted) {record : RawRecord}
    (found : s.records[keys.canonicalKey url]? = some record) : record.status ≠ .committed := by
  intro committed
  have proven := (valid _ _ found committed).validate
  rw [committed] at proven
  rw [CommitSession.decide_resume present resume, found] at passed
  simp [proven] at passed

/-- The record a promotion starts from claims flushed output. -/
theorem status_eq_exported_of_promote {s : CommitSession} {ctx : ResumeContext}
    (present : s.ctx = some ctx) (resume : ctx.resume = true)
    (valid : AllEntries CommittedValid s.records) {lines : List ExportLine}
    (backed : AllEntries (Backed keys lines) s.records) {url : String}
    {freshHash : Option String}
    (promoted : s.decide keys url freshHash = .promoteFromFlushProof) {record : RawRecord}
    (found : s.records[keys.canonicalKey url]? = some record) : record.status = .exported := by
  have passed : s.decide keys url freshHash ≠ .alreadyCommitted := by simp [promoted]
  have notCommitted := status_ne_committed_of_decide present resume valid passed found
  rcases backed _ _ found with ⟨-, noHash⟩ | ⟨claims, -⟩
  · rw [CommitSession.decide_resume present resume, found] at promoted
    simp only [noHash, Option.any_none, Bool.false_eq_true, if_false] at promoted
    split at promoted <;> cases promoted
  · cases status : record.status with
    | exported => rfl
    | committed => exact absurd status notCommitted
    | discovered | queued | fetching | fetched | extracted | processed =>
        rw [status] at claims
        cases claims

theorem resume_of_promote {s : CommitSession} {ctx : ResumeContext} (present : s.ctx = some ctx)
    {url : String} {freshHash : Option String}
    (promoted : s.decide keys url freshHash = .promoteFromFlushProof) : ctx.resume = true := by
  cases resume : ctx.resume with
  | true => rfl
  | false =>
      rw [CommitSession.decide_fresh present resume] at promoted
      cases promoted

/-- A promotion without a record goes by the fresh hash alone. -/
theorem mem_hashIndex_of_promote {s : CommitSession} {ctx : ResumeContext}
    (present : s.ctx = some ctx) {url contentHash : String}
    (promoted : s.decide keys url (some contentHash) = .promoteFromFlushProof)
    (absent : s.records[keys.canonicalKey url]? = none) : contentHash ∈ s.hashIndex := by
  rw [CommitSession.decide_resume present (resume_of_promote present promoted), absent] at promoted
  dsimp only at promoted
  split at promoted
  · rename_i listed
    simpa using listed
  · cases promoted

/-- One item keeps every record backed, unless it promotes without a record. -/
theorem process_keeps_backed {run : OpenRun} {lines : List ExportLine}
    (backed : AllEntries (Backed keys lines) run.session.records)
    (valid : run.ctx.resume = true → AllEntries CommittedValid run.session.records)
    (result : ScrapedContent) (env : ItemEnv)
    (proven : run.ctx.resume = true → keys.itemPair result ∉ run.session.driven →
      run.session.records[keys.itemKey result]? = none →
      keys.sha256Hex result.content ∈ run.session.hashIndex →
      Flushed keys lines (keys.itemKey result) (keys.sha256Hex result.content)) :
    AllEntries (Backed keys (lines ++ appendedLines (run.process keys result env).2.1))
        (run.next keys result env).session.records ∧
      EffectsKeep (Backed keys) lines (run.process keys result env).2.1 := by
  rw [OpenRun.next_session, OpenRun.process_eq]
  refine CommitSession.follow_keeps lines backed (fun line _ _ old => old.grow line)
    (fun _ _ _ _ old accepted => old.commit accepted) ?_ ?_ ?_
  · intro route exported made
    obtain ⟨new, decision⟩ := CommitSession.route_eq_promote route
    have resume := resume_of_promote run.present decision
    refine backed_promotedRecord made (fun old found => ?_) (fun absent => ?_)
    · exact ⟨backed _ _ found, status_eq_exported_of_promote run.present resume (valid resume)
        backed decision found⟩
    · exact proven resume new absent (mem_hashIndex_of_promote run.present decision absent)
  · intro error residue observes _ failed made
    exact backed_failedRecord made fun old found => backed _ _ found
  · intro _ exported made
    exact backed_drivenRecord made (flushed_itemLine lines result)

/-- One item of a resuming run keeps its COMMITTED records valid. -/
theorem process_keeps_valid {run : OpenRun} (resume : run.ctx.resume = true)
    (valid : AllEntries CommittedValid run.session.records) (result : ScrapedContent)
    (env : ItemEnv) :
    AllEntries CommittedValid (run.next keys result env).session.records := by
  have notCommitted {record : RawRecord} (exported : record.status = .exported) :
      CommittedValid (keys.itemKey result) record := by
    intro committed
    rw [exported] at committed
    cases committed
  rw [OpenRun.next_session, OpenRun.process_eq]
  refine (CommitSession.follow_keeps [] (P := fun _ => CommittedValid)
    (s := run.session.claimed keys result) valid (fun _ _ _ old => old) ?_ ?_ ?_ ?_).1
  · intro _ _ _ _ _ accepted _
    exact (tryCommitExported_eq_some.mp accepted).2.2
  · intro _ _ made
    exact notCommitted (promotedRecord_status made)
  · intro error residue observes route failed made committed
    have decision := (CommitSession.route_eq_refuse route).2
    rw [failedRecord_status made] at committed
    cases found : (run.session.claimed keys result).records[keys.itemKey result]? with
    | none =>
        rw [found] at committed
        cases committed
    | some old =>
        rw [found] at committed
        have passed := decision.trans_ne (fun same : ItemDecision.driveAndCommit =
          .alreadyCommitted => ItemDecision.noConfusion same)
        exact absurd committed
          (status_ne_committed_of_decide run.present resume valid passed found)
  · intro _ _ made
    exact notCommitted (drivenRecord_status made)

/-! ## Whole histories -/

/-- What every step keeps: records backed by the lines of the file, in the store and in the
session, and valid COMMITTED records in a resuming session. -/
structure ExportState.Sound (keys : ExportKeys) (s : ExportState) : Prop where
  store : AllEntries (Backed keys s.world.file.lines) s.world.store
  session : ∀ run, s.running = some run →
    AllEntries (Backed keys s.world.file.lines) run.session.records
  valid : ∀ run, s.running = some run → run.ctx.resume = true →
    AllEntries CommittedValid run.session.records

theorem ExportState.Sound.start : ExportState.start.Sound keys where
  store := AllEntries.empty
  session := by intro run busy; cases busy
  valid := by intro run busy; cases busy

theorem ExportState.Sound.stop {w : World} (store : AllEntries (Backed keys w.file.lines) w.store) :
    ExportState.Sound keys ⟨w, none⟩ where
  store := store
  session := by intro run busy; cases busy
  valid := by intro run busy; cases busy

/-- A step that promotes nothing unproven keeps the state sound. -/
theorem exportStep_sound {s t : ExportState} {action : ExportAction} (sound : s.Sound keys)
    (proven : PromotionProven keys s action) (step : exportStep keys s action = some t) :
    t.Sound keys := by
  have grow : ∀ lines line k r, Backed keys lines k r → Backed keys (lines ++ [line]) k r :=
    fun _ line _ _ old => old.grow line
  obtain ⟨ctx, outputPath, loaded, rfl, idle, rfl⟩ | ⟨result, env, run, rfl, busy, -, rfl⟩ |
    ⟨result, env, steps, run, rfl, busy, -, rfl⟩ | ⟨saved, run, rfl, busy, rfl⟩ :=
    exportStep_cases step
  · refine ⟨sound.store, ?_, ?_⟩
    · rintro run ⟨⟩
      exact loadPreserving_keeps sound.store loaded
    · rintro run ⟨⟩ -
      exact (loadPreserving_valid s.world loaded).mono fun _ _ valid _ => valid
  · obtain ⟨session, keep⟩ := process_keeps_backed (sound.session run busy)
      (sound.valid run busy) result env (proven run busy)
    refine ⟨World.applyAll_keeps grow sound.store keep, ?_, ?_⟩
    · rintro next ⟨⟩
      rw [World.applyAll_lines]
      exact session
    · rintro next ⟨⟩ resume
      have resumes : run.ctx.resume = true := resume
      exact process_keeps_valid resumes (sound.valid run busy resume) result env
  · have keep := (process_keeps_backed (sound.session run busy) (sound.valid run busy) result env
      (proven run busy)).2
    exact .stop (World.applyAll_keeps grow sound.store (keep.take steps))
  · exact .stop (World.applyAll_keeps grow sound.store (.save (sound.session run busy) saved))

/-- Sound records mean sound commits. -/
theorem ExportState.Sound.committed {s : ExportState} (sound : s.Sound keys) :
    s.world.CommittedSound keys := by
  intro key record stored committed
  rcases sound.store key record stored with ⟨fresh, -⟩ | ⟨-, -, backed⟩
  · rw [committed] at fresh
    cases fresh
  · exact backed

/-- Whatever runs, failures, cancellations and kills come one after another: if no step
promotes an item without a record on a hash its own page never flushed, then every
COMMITTED record has its line in the output file. -/
theorem committed_records_have_their_line {actions : List ExportAction} {s : ExportState}
    (run : execute (exportStep keys) .start actions = some s)
    (proven : Along (exportStep keys) (PromotionProven keys) .start actions) :
    s.world.CommittedSound keys :=
  (execute_invariant_along (fun _ _ _ sound proven step => exportStep_sound sound proven step)
    run proven .start).committed

end Keys

/-! ## A mirrored page -/

/-- A fresh run exports page `a`; a resuming run then meets `second`. -/
def twoRuns (second : ScrapedContent) : List ExportAction :=
  [.openSession ⟨"r1", false⟩ "out" true, .item (pageOf "a" "x" (by decide)) (fine 1),
    .finish true,
    .openSession ⟨"r2", true⟩ "out" true, .item second (fine 2), .finish true]

theorem committed_records_have_their_line_twice :
    ∃ s, execute (exportStep plainKeys) .start (twoRuns (pageOf "a" "x" (by decide))) = some s ∧
      s.world.CommittedSound plainKeys := by
  have finished :
      (execute (exportStep plainKeys) .start (twoRuns (pageOf "a" "x" (by decide)))).isSome := by
    decide +kernel
  obtain ⟨s, run⟩ := Option.isSome_iff_exists.mp finished
  exact ⟨s, run, committed_records_have_their_line run (by decide +kernel)⟩

/-- Page `b` carries the content of page `a`: it is committed on the other page's line. -/
theorem mirrored_page_committed_without_its_line :
    ∃ s, execute (exportStep plainKeys) .start (twoRuns (pageOf "b" "x" (by decide))) = some s ∧
      ¬ s.world.CommittedSound plainKeys := by
  have finished : ((execute (exportStep plainKeys) .start
      (twoRuns (pageOf "b" "x" (by decide)))).any fun s => (s.world.store["b"]?).any fun record =>
        decide (record.status = .committed ∧ ∀ contentHash ∈ record.contentHash,
          ¬ Flushed plainKeys s.world.file.lines "b" contentHash)) = true := by
    decide +kernel
  obtain ⟨s, run, broken⟩ := (Option.any_eq_true _ _).mp finished
  obtain ⟨record, stored, unproven⟩ := (Option.any_eq_true _ _).mp broken
  obtain ⟨committed, missing⟩ := of_decide_eq_true unproven
  refine ⟨s, run, fun sound => ?_⟩
  obtain ⟨contentHash, stamped, flushed⟩ := sound "b" record stored committed
  exact missing contentHash stamped flushed

end Webfang
