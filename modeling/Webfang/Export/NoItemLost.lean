import Webfang.Export.ResumeGate

/-!
# Which items of a resuming run reach the file

A run owes a line to every item that was not COMMITTED-proven when its session was opened,
validates and exports.  It pays exactly the items whose pair is in the file already and
those that are the first of their key to validate and export, when no flush proof holds
their key back.
-/

namespace Webfang

open KeyedMerge

section Keys

variable (keys : ExportKeys)

/-- A terminated line with the item's own URL and content hash. -/
def Lined (lines : List ExportLine) (item : ScrapedContent × ItemEnv) : Prop :=
  ∃ line ∈ lines, line.url = some item.1.url.str ∧
    line.checksumSha256 = some (keys.sha256Hex item.1.content)

instance (lines : List ExportLine) (item : ScrapedContent × ItemEnv) :
    Decidable (Lined keys lines item) :=
  inferInstanceAs (Decidable (∃ line ∈ lines, _))

/-- The record of a key is proven COMMITTED. -/
def CommittedProven (records : DomainRecords) (key : String) : Prop :=
  ∃ record, records[key]? = some record ∧ record.validate .committed = .ok ()

/-- The item was not COMMITTED-proven when the session was opened, validates and exports. -/
def Owed (run : ExportRun) (w : World) (item : ScrapedContent × ItemEnv) : Prop :=
  ¬ CommittedProven (w.loadPreserving run.loaded) (keys.itemKey item.1) ∧ Exports item

/-- Every owed item has a line of its own after the call. -/
def NoItemLost (run : ExportRun) (w : World) : Prop :=
  ∀ item ∈ run.items, Owed keys run w item → Lined keys (w.afterRun keys run).file.lines item

/-- The first item with this pair validates and exports, no earlier pair of the same key
does, and no flush proof holds the key back. -/
def FirstToExport (run : ExportRun) (w : World) (item : ScrapedContent × ItemEnv) : Prop :=
  ∃ before first after, claimants keys ∅ run.items = before ++ first :: after ∧
    keys.itemPair first.1 = keys.itemPair item.1 ∧ Exports first ∧
    (∀ other ∈ before, keys.itemKey other.1 = keys.itemKey first.1 → ¬ Exports other) ∧
    ProofMisses keys (w.loadPreserving run.loaded) (buildContentHashIndex w.file)
      (claimants keys ∅ run.items) (keys.itemKey first.1)

variable {keys}

theorem Room.mono {m n : Nat} {records : DomainRecords} (room : Room n records) (le : m ≤ n) :
    Room m records where
  items := lt_of_le_of_lt le room.items
  counters := room.counters.mono fun _ _ bound => by omega

theorem length_claimants_le (seen : Finset (String × String))
    (items : List (ScrapedContent × ItemEnv)) :
    (claimants keys seen items).length ≤ items.length := by
  induction items generalizing seen with
  | nil => exact Nat.le_refl _
  | cons head rest ih =>
      rw [claimants]
      split
      · exact Nat.le_succ_of_le (ih seen)
      · exact Nat.succ_le_succ (ih _)

theorem itemKey_eq_of_itemPair {a b : ScrapedContent}
    (same : keys.itemPair a = keys.itemPair b) : keys.itemKey a = keys.itemKey b :=
  congrArg keys.canonicalKey (congrArg Prod.fst same)

theorem lined_itemLine_iff {item first : ScrapedContent × ItemEnv} :
    (keys.itemLine first.1).url = some item.1.url.str ∧
        (keys.itemLine first.1).checksumSha256 = some (keys.sha256Hex item.1.content) ↔
      keys.itemPair first.1 = keys.itemPair item.1 := by
  simp [ExportKeys.itemLine, ExportKeys.itemPair]

section Call

variable {run : ExportRun} {w : World} {ctx : ResumeContext}

theorem openSession_resuming (present : run.ctx = some ctx) (resume : ctx.resume = true) :
    Resuming (run.openSession w) ctx where
  present := present
  resume := resume
  valid := by
    rw [ExportRun.openSession, present]
    exact loadPreserving_valid w run.loaded

theorem openSession_records (present : run.ctx = some ctx) :
    (run.openSession w).records = w.loadPreserving run.loaded := by
  rw [ExportRun.openSession, present]
  rfl

/-- The claimants of a call, in line before its session. -/
theorem openSession_lineup (w : World) (uncancelled : ∀ item ∈ run.items, item.2.cancelled = false)
    (meaningful : ∀ item ∈ run.items, isBlank (keys.itemKey item.1) = false) :
    Lineup keys (run.openSession w) (claimants keys ∅ run.items) where
  new _ _ := Finset.notMem_empty _
  distinct := nodup_claimants ∅ run.items
  meaningful item member := meaningful item (mem_claimants member).1
  uncancelled item member := uncancelled item (mem_claimants member).1

/-- The lines after a call: those before it, and one for each claimant flushed in its turn. -/
theorem lined_afterRun_iff (present : run.ctx = some ctx)
    (uncancelled : ∀ item ∈ run.items, item.2.cancelled = false)
    {item : ScrapedContent × ItemEnv} :
    Lined keys (w.afterRun keys run).file.lines item ↔
      Lined keys w.file.lines item ∨
        ∃ before first after, claimants keys ∅ run.items = before ++ first :: after ∧
          keys.itemPair first.1 = keys.itemPair item.1 ∧
          (processItems keys run.outputPath run.runId (run.openSession w) before).1.route keys
            first.1 first.2.answer = .flush := by
  have sessionPresent : (run.openSession w).ctx = some ctx := present
  have effects := (processItems_claimants keys sessionPresent run.outputPath run.runId
    uncancelled).2
  have claims : ∀ item ∈ claimants keys ∅ run.items, item.2.cancelled = false :=
    fun item member => uncancelled item (mem_claimants member).1
  have lines : (w.afterRun keys run).file.lines = w.file.lines ++
      appendedLines (processItems keys run.outputPath run.runId (run.openSession w)
        (claimants keys ∅ run.items)).2.1 := by
    rw [World.afterRun, ← World.applyAll, World.applyAll_lines, processResults]
    dsimp only
    rw [appendedLines_append, appendedLines_save, List.append_nil, effects]
    rfl
  unfold Lined
  rw [lines]
  simp only [List.mem_append, or_and_right, exists_or,
    mem_appendedLines_iff sessionPresent run.outputPath run.runId claims]
  refine or_congr_right ⟨?_, ?_⟩
  · rintro ⟨line, ⟨before, first, after, split, rfl, flushed⟩, same⟩
    exact ⟨before, first, after, split, lined_itemLine_iff.mp same, flushed⟩
  · rintro ⟨before, first, after, split, same, flushed⟩
    exact ⟨_, ⟨before, first, after, split, rfl, flushed⟩, lined_itemLine_iff.mpr same⟩

/-- A resuming call loses no owed item if every owed item has its line already or is the
first of its key to export with no flush proof in the way; and as long as no counter of
attempts wraps, only then. -/
theorem no_item_lost_iff (present : run.ctx = some ctx) (resume : ctx.resume = true)
    (uncancelled : ∀ item ∈ run.items, item.2.cancelled = false)
    (meaningful : ∀ item ∈ run.items, isBlank (keys.itemKey item.1) = false) :
    ((∀ item ∈ run.items, Owed keys run w item →
        Lined keys w.file.lines item ∨ FirstToExport keys run w item) →
      NoItemLost keys run w) ∧
    (Room run.items.length (w.loadPreserving run.loaded) → NoItemLost keys run w →
      ∀ item ∈ run.items, Owed keys run w item →
        Lined keys w.file.lines item ∨ FirstToExport keys run w item) := by
  have resuming := openSession_resuming (w := w) present resume
  have lineup := openSession_lineup w uncancelled meaningful
  have records := openSession_records (w := w) present
  have loaded := loadPreserving_valid w run.loaded
  constructor
  · intro condition item member owed
    rw [lined_afterRun_iff present uncancelled]
    refine (condition item member owed).imp_right ?_
    rintro ⟨before, first, after, split, same, exports, refused, misses⟩
    have sameKey := itemKey_eq_of_itemPair same
    refine ⟨before, first, after, split, same, CommitSession.route_eq_flush.mpr ?_⟩
    rw [split] at lineup misses
    have notCommitted : ∀ record,
        (run.openSession w).records[keys.itemKey first.1]? = some record →
          record.status ≠ .committed := by
      intro record found committed
      rw [records] at found
      have table := (loaded _ _ found).validate
      rw [committed] at table
      exact owed.1 ⟨record, sameKey ▸ found, table⟩
    rw [← records] at misses
    have drive := resuming.drives_behind_refused run.outputPath run.runId lineup notCommitted
      misses refused
    have new := lineup.new_after resuming.present run.outputPath run.runId
    exact ⟨new, drive, exports⟩
  · intro room kept item member owed
    rcases (lined_afterRun_iff present uncancelled).mp (kept item member owed) with
      already | ⟨before, first, after, split, same, flushed⟩
    · exact .inl already
    · right
      have exports := (CommitSession.route_eq_flush.mp flushed).2.2
      rw [split] at lineup
      have roomHere : Room (before ++ first :: after).length (run.openSession w).records := by
        rw [records, ← split]
        exact room.mono (length_claimants_le ∅ run.items)
      obtain ⟨misses, refused⟩ := resuming.first_exporting_of_flush run.outputPath run.runId
        lineup roomHere flushed
      rw [records, ← split] at misses
      exact ⟨before, first, after, split, same, exports, refused, misses⟩

end Call

end Keys

/-! ## Two contents of one page -/

/-- A resuming call over the given pages, everything succeeding. -/
def resumedCall (pages : List ScrapedContent) : ExportRun where
  ctx := some ⟨"r2", true⟩
  fallbackRunId := "r0"
  outputPath := "out"
  loaded := true
  items := pages.map fun page => (page, fine 2)
  finalSave := true

theorem loadPreserving_empty (file : OutputFile) (loaded : Bool) (k : String) :
    (World.loadPreserving ⟨file, ∅⟩ loaded)[k]? = none := by
  unfold World.loadPreserving
  split
  · rw [validateAndQuarantine_getElem?]
    simp
  · simp

/-- Two pages with contents of their own are both written. -/
theorem no_item_lost_of_two_pages :
    NoItemLost plainKeys
      (resumedCall [pageOf "a" "x" (by decide), pageOf "b" "y" (by decide)]) ⟨.empty, ∅⟩ := by
  refine (no_item_lost_iff rfl rfl (by simp [resumedCall, fine])
    (by simp [resumedCall, ExportKeys.itemKey, plainKeys, pageOf]; decide)).1 ?_
  have misses (key : String) : ProofMisses plainKeys (World.loadPreserving ⟨.empty, ∅⟩ true)
      (buildContentHashIndex .empty) (claimants plainKeys ∅ (resumedCall
        [pageOf "a" "x" (by decide), pageOf "b" "y" (by decide)]).items) key := by
    unfold ProofMisses
    rw [loadPreserving_empty]
    exact fun first _ => Finset.notMem_empty _
  intro item member _
  right
  rcases List.mem_cons.mp member with rfl | second
  · exact ⟨[], _, [_], rfl, rfl, ⟨by decide +kernel, rfl⟩, by simp, misses _⟩
  · cases List.mem_singleton.mp second
    refine ⟨[_], _, [], rfl, rfl, ⟨by decide +kernel, rfl⟩, ?_, misses _⟩
    intro other before sameKey
    cases List.mem_singleton.mp before
    exact absurd sameKey (by decide)

/-- The second content of page `a` is owed and lost: the first one committed the page. -/
theorem second_content_lost :
    ¬ NoItemLost plainKeys
      (resumedCall [pageOf "a" "x" (by decide), pageOf "a" "y" (by decide)]) ⟨.empty, ∅⟩ := by
  intro kept
  have lost : ¬ Lined plainKeys (World.afterRun plainKeys ⟨.empty, ∅⟩ (resumedCall
      [pageOf "a" "x" (by decide), pageOf "a" "y" (by decide)])).file.lines
        (pageOf "a" "y" (by decide), fine 2) := by
    decide +kernel
  refine lost (kept _ (by simp [resumedCall]) ⟨?_, by decide +kernel, rfl⟩)
  rintro ⟨record, found, -⟩
  rw [show (resumedCall _).loaded = true from rfl, loadPreserving_empty] at found
  cases found

end Webfang
