import Webfang.Export.ItemStage

/-!
# Exactly-once export across crashes

Resuming runs over one fixed list of items, each of which may fail items and may be killed
between any two durable steps.  Every step that meets `CrashSafe` keeps the world orderly,
and a last run in which every export succeeds brings every item to its COMMITTED stage.
-/

namespace Webfang

open KeyedMerge StepSystem

section Keys

variable (keys : ExportKeys) (items : List ScrapedContent)

/-- The steps of resuming runs over the list, with a readable store and successful saves. -/
def ResumedStep : ExportAction → Prop
  | .openSession ctx _ loaded => ctx.resume = true ∧ loaded = true
  | .item result env | .kill result env _ => result ∈ items ∧ env.saves = (true, true)
  | .finish saved => saved = true

/-- An item with a failure on record is exported no earlier than its failure was stamped,
and before its counter of attempts wraps. -/
def Timely (s : ExportState) (result : ScrapedContent) (env : ItemEnv) : Prop :=
  ∀ record ∈ s.world.store[keys.itemKey result]?, record.contentHash = none →
    env.answer = .ok → record.updatedAt ≤ env.now ∧ record.attempts.toNat + 1 < 2 ^ 32

instance (s : ExportState) (result : ScrapedContent) (env : ItemEnv) :
    Decidable (Timely keys s result env) :=
  inferInstanceAs (Decidable (∀ record ∈ s.world.store[keys.itemKey result]?, _))

/-- The exporter failed on the newline: the whole line is in the file, unterminated. -/
def ExportAnswer.tearsWholeLine : ExportAnswer → Bool
  | .err _ (.torn true _) => true
  | _ => false

/-- The state and the crash do not defeat recovery: no session opens over an unterminated
tail that is not UTF-8 while a line has no COMMITTED record; no kill falls between the append
and the first save of an item with a failure on record, or between a torn write that left a
whole line and the save of the item's first failure. -/
def CrashSafe (s : ExportState) : ExportAction → Prop
  | .openSession _ _ _ =>
      (∀ tail ∈ s.world.file.tail, tail.utf8 = true) ∨
        ∀ item ∈ items, keys.itemLine item ∈ s.world.file.lines →
          ∃ record ∈ s.world.store[keys.itemKey item]?, record.status = .committed
  | .item result env => Timely keys s result env
  | .kill result env steps =>
      Timely keys s result env ∧
        (steps = 1 → keys.itemLine result ∉ s.world.file.lines →
          (env.answer = .ok → s.world.store[keys.itemKey result]?.isNone) ∧
          (env.answer.tearsWholeLine → s.world.store[keys.itemKey result]?.isSome))
  | .finish _ => True

instance (s : ExportState) :
    (action : ExportAction) → Decidable (CrashSafe keys items s action)
  | .openSession _ _ _ =>
      inferInstanceAs (Decidable ((∀ tail ∈ s.world.file.tail, _) ∨ ∀ item ∈ items, _))
  | .item result env => inferInstanceAs (Decidable (Timely keys s result env))
  | .kill result env _ => inferInstanceAs (Decidable (Timely keys s result env ∧ _))
  | .finish _ => .isTrue True.intro

/-- A run under way and the world it works on. -/
structure Synced (run : OpenRun) (w : World) : Prop where
  resume : run.ctx.resume = true
  valid : ValidRecords run.session.records
  agrees : ∀ k, Agrees run.session.records w.store k
  slot : ∀ item ∈ items, keys.itemPair item ∉ run.session.driven →
    run.session.records[keys.itemKey item]? = w.store[keys.itemKey item]?
  unrecorded : ∀ item ∈ items, keys.itemPair item ∉ run.session.driven →
    w.store[keys.itemKey item]? = none →
      (keys.sha256Hex item.content ∈ run.session.hashIndex ↔
        w.file.lines.count (keys.itemLine item) = 1)
  listed : ∀ item ∈ items, keys.itemPair item ∉ run.session.driven →
    ∀ record, w.store[keys.itemKey item]? = some record → record.status = .exported →
      keys.sha256Hex item.content ∈ run.session.hashIndex

variable {keys items}

theorem Synced.resuming {run : OpenRun} {w : World} (synced : Synced keys items run w) :
    Resuming run.session run.ctx where
  present := run.present
  resume := synced.resume
  valid := synced.valid

/-- The line of an item is in an orderly file at most once. -/
theorem Orderly.count_eq_one {w : World} (orderly : Orderly keys items w) {item : ScrapedContent}
    (member : item ∈ items) :
    keys.itemLine item ∈ w.file.lines ↔ w.file.lines.count (keys.itemLine item) = 1 := by
  rw [← List.count_pos_iff]
  rcases (orderly.stage item member).count_eq_zero_or_one with none | one
  · omega
  · omega

/-- A session opened over an orderly world is in step with it. -/
theorem Synced.open {w : World} (orderly : Orderly keys items w) (catalog : Catalog keys items)
    {ctx : ResumeContext} (resume : ctx.resume = true) (outputPath : String)
    (clean : (∀ tail ∈ w.file.tail, tail.utf8 = true) ∨
      ∀ item ∈ items, keys.itemLine item ∈ w.file.lines →
        ∃ record ∈ w.store[keys.itemKey item]?, record.status = .committed) :
    Synced keys items (w.openRun ctx outputPath true) w := by
  have same : ∀ k, (w.openRun ctx outputPath true).session.records[k]? = w.store[k]? :=
    fun k => validateAndQuarantine_of_valid orderly.valid k
  have index : (w.openRun ctx outputPath true).session.hashIndex = buildContentHashIndex w.file :=
    rfl
  have utf8 : ∀ line ∈ w.file.lines, line.utf8 = true := by
    intro line inLines
    obtain ⟨item, -, rfl⟩ := orderly.lines line inLines
    rfl
  have own : ∀ item ∈ items, ∀ line ∈ w.file.lines,
      line.checksumSha256 = some (keys.sha256Hex item.content) → line = keys.itemLine item := by
    intro item member line inLines hash
    obtain ⟨other, inItems, rfl⟩ := orderly.lines line inLines
    rw [catalog.eq_of_hash inItems member (Option.some.inj hash)]
  -- a line without a COMMITTED record rules the unreadable tail out
  have indexed : ∀ item ∈ items, keys.itemLine item ∈ w.file.lines →
      (∀ record, w.store[keys.itemKey item]? = some record → record.status ≠ .committed) →
      keys.sha256Hex item.content ∈ buildContentHashIndex w.file := by
    intro item member inLines unfinished
    rcases clean with readable | finished
    · rw [mem_buildContentHashIndex]
      refine ⟨?_, keys.itemLine item, List.mem_append_left _ inLines, rfl⟩
      intro line found
      rcases List.mem_append.mp found with inFile | inTail
      · exact utf8 line inFile
      · exact readable line (Option.mem_toList.mp inTail)
    · obtain ⟨record, found, committed⟩ := finished item member inLines
      exact absurd committed (unfinished record found)
  refine ⟨resume, ?_, fun k => .inl (same k), fun item _ _ => same _, ?_, ?_⟩
  · intro k record found
    rw [same k] at found
    exact orderly.valid k record found
  · intro item member _ absent
    rw [index, ← orderly.count_eq_one member]
    constructor
    · intro proven
      obtain ⟨-, line, found, hash⟩ := mem_buildContentHashIndex.mp proven
      rcases List.mem_append.mp found with inFile | inTail
      · exact own item member line inFile hash ▸ inFile
      · have torn : w.file.tail.bind (·.checksumSha256) = some (keys.sha256Hex item.content) := by
          rw [Option.mem_toList.mp inTail]
          exact hash
        rcases orderly.tail item member torn with recorded | flushed
        · exact absurd absent recorded
        · exact flushed
    · intro flushed
      refine indexed item member flushed fun record found => ?_
      rw [absent] at found
      cases found
  · intro item member _ record found exported
    have stage := orderly.stage item member
    have flushed : keys.itemLine item ∈ w.file.lines := by
      rw [orderly.count_eq_one member]
      rw [found] at stage
      exact stage.count_of_claims (by rw [exported]; rfl)
    rw [index]
    refine indexed item member flushed fun other same => ?_
    rw [found] at same
    cases same
    rw [exported]
    simp

/-- An unterminated tail is the work of an item that has no line yet. -/
def TornByUnlined (keys : ExportKeys) (items : List ScrapedContent) (file : OutputFile) : Prop :=
  file.tail ≠ none → ∃ item ∈ items, keys.itemLine item ∉ file.lines

theorem TornByUnlined.empty : TornByUnlined keys items .empty := fun torn => absurd rfl torn

theorem TornByUnlined.apply_append (w : World) (line : ExportLine) :
    TornByUnlined keys items (w.apply (.append line)).file := fun torn => absurd rfl torn

theorem applyAll_take_persists {w : World} {effects : List Effect}
    (persists : ∀ effect ∈ effects, ∃ records saved, effect = .persist records saved)
    (steps : Nat) : (w.applyAll (effects.take steps)).file = w.file := by
  induction effects generalizing w steps with
  | nil => rw [List.take_nil]; rfl
  | cons effect effects ih =>
      obtain ⟨records, saved, rfl⟩ := persists effect (List.mem_cons_self ..)
      cases steps with
      | zero => rfl
      | succ steps =>
          rw [List.take_succ_cons, World.applyAll_cons,
            ih fun later member => persists later (List.mem_cons_of_mem _ member)]
          cases saved <;> rfl

/-- A turn tears the file only for an item without a line, and mends it by every append. -/
theorem Turn.torn_take {s s' : CommitSession} {item : ScrapedContent} {env : ItemEnv}
    {effects : List Effect} {w : World} (torn : TornByUnlined keys items w.file)
    (member : item ∈ items)
    (turn : Turn keys s item env (w.file.lines.count (keys.itemLine item)) s' effects)
    (steps : Nat) : TornByUnlined keys items (w.applyAll (effects.take steps)).file := by
  generalize count : w.file.lines.count (keys.itemLine item) = n at turn
  cases turn with
  | skipped => rwa [List.take_nil]
  | promoted =>
      rw [applyAll_take_persists (by simp)]
      exact torn
  | driven =>
      cases steps with
      | zero => exact torn
      | succ steps =>
          rw [List.take_succ_cons, World.applyAll_cons, applyAll_take_persists (by simp)]
          exact .apply_append w _
  | failed record error residue answer =>
      have unlined : keys.itemLine item ∉ w.file.lines := List.count_eq_zero.mp count
      cases steps with
      | zero => exact torn
      | succ steps =>
          cases residue with
          | untouched =>
              rw [Residue.effects, List.nil_append, applyAll_take_persists (by simp)]
              exact torn
          | recovered | torn =>
              rw [Residue.effects, List.cons_append, List.nil_append, List.take_succ_cons,
                World.applyAll_cons, applyAll_take_persists (by simp)]
              exact fun _ => ⟨item, member, unlined⟩

/-- An orderly world, and a run in step with it. -/
structure Recoverable (keys : ExportKeys) (items : List ScrapedContent) (s : ExportState) :
    Prop where
  orderly : Orderly keys items s.world
  torn : TornByUnlined keys items s.world.file
  synced : ∀ run, s.running = some run → Synced keys items run s.world

theorem Recoverable.start : Recoverable keys items .start where
  orderly := .empty
  torn := .empty
  synced := by intro run busy; cases busy

theorem Recoverable.stop {w : World} (orderly : Orderly keys items w)
    (torn : TornByUnlined keys items w.file) : Recoverable keys items ⟨w, none⟩ where
  orderly := orderly
  torn := torn
  synced := by intro run busy; cases busy

section OneItem

variable {run : OpenRun} {w : World} {result : ScrapedContent} {env : ItemEnv}

/-- The first turn of an item within a run, from the state the run is in. -/
theorem Synced.turn (synced : Synced keys items run w) (orderly : Orderly keys items w)
    (catalog : Catalog keys items) (member : result ∈ items)
    (new : keys.itemPair result ∉ run.session.driven) (saves : env.saves = (true, true))
    (timely : Timely keys ⟨w, some run⟩ result env) :
    Turn keys run.session result env (w.file.lines.count (keys.itemLine result))
      (run.process keys result env).1 (run.process keys result env).2.1 := by
  have slot := synced.slot result member new
  refine turn_of_stage synced.resuming run.outputPath run.ctx.runId catalog member new saves
    ?_ ?_ ?_ ?_
  · rw [slot]
    exact orderly.stage result member
  · rw [slot]
    exact synced.unrecorded result member new
  · rw [slot]
    exact synced.listed result member new
  · rw [slot]
    exact timely

/-- An item of a run, cut after any number of its durable steps. -/
theorem Synced.orderly_take (synced : Synced keys items run w) (orderly : Orderly keys items w)
    (catalog : Catalog keys items) (member : result ∈ items) (saves : env.saves = (true, true))
    (timely : Timely keys ⟨w, some run⟩ result env) (steps : Nat)
    (cut : steps = 1 → keys.itemLine result ∉ w.file.lines →
      (env.answer = .ok → w.store[keys.itemKey result]?.isNone) ∧
      (env.answer.tearsWholeLine → w.store[keys.itemKey result]?.isSome)) :
    Orderly keys items (w.applyAll ((run.process keys result env).2.1.take steps)) := by
  by_cases old : keys.itemPair result ∈ run.session.driven
  · rw [OpenRun.process, processSingleItem_of_driven run.present old, List.take_nil]
    exact orderly
  · refine Turn.orderly_take orderly catalog member (synced.slot result member old)
      (fun k _ => synced.agrees k) (synced.turn orderly catalog member old saves timely) steps
      (fun one ok noLine => ?_) (fun one error utf8 answer noLine => ?_)
    · exact Option.isNone_iff_eq_none.mp ((cut one (List.count_eq_zero.mp noLine)).1 ok)
    · exact Option.isSome_iff_ne_none.mp
        ((cut one (List.count_eq_zero.mp noLine)).2 (by rw [answer]; rfl))

/-- An item of a run, cut anywhere, tears the file only for an item without a line. -/
theorem Synced.torn_take (synced : Synced keys items run w) (orderly : Orderly keys items w)
    (catalog : Catalog keys items) (member : result ∈ items) (saves : env.saves = (true, true))
    (timely : Timely keys ⟨w, some run⟩ result env) (torn : TornByUnlined keys items w.file)
    (steps : Nat) :
    TornByUnlined keys items (w.applyAll ((run.process keys result env).2.1.take steps)).file := by
  by_cases old : keys.itemPair result ∈ run.session.driven
  · rw [OpenRun.process, processSingleItem_of_driven run.present old, List.take_nil]
    exact torn
  · exact (synced.turn orderly catalog member old saves timely).torn_take torn member steps

/-- A whole item keeps the run in step with its world. -/
theorem Synced.next (synced : Synced keys items run w) (orderly : Orderly keys items w)
    (catalog : Catalog keys items) (member : result ∈ items) (saves : env.saves = (true, true))
    (timely : Timely keys ⟨w, some run⟩ result env) :
    Synced keys items (run.next keys result env)
      (w.applyAll (run.process keys result env).2.1) := by
  by_cases old : keys.itemPair result ∈ run.session.driven
  · have skipped : run.process keys result env = (run.session, [], .skipped) :=
      processSingleItem_of_driven run.present old run.outputPath run.ctx.runId
    have session : (run.next keys result env).session = run.session := by
      rw [OpenRun.next_session, skipped]
    rw [skipped, World.applyAll_nil]
    refine ⟨synced.resume, ?_, ?_, ?_, ?_, ?_⟩
    · rw [session]
      exact synced.valid
    · rw [session]
      exact synced.agrees
    · rw [session]
      exact synced.slot
    · rw [session]
      exact synced.unrecorded
    · rw [session]
      exact synced.listed
  · obtain ⟨elsewhere, agrees, -⟩ := Turn.after orderly.valid (synced.slot result member old)
      (fun k _ => synced.agrees k) (synced.turn orderly catalog member old saves timely)
    have different : ∀ item ∈ items,
        keys.itemPair item ∉ (run.next keys result env).session.driven →
        keys.itemPair item ∉ run.session.driven ∧ keys.itemKey result ≠ keys.itemKey item ∧
          keys.itemLine result ≠ keys.itemLine item := by
      intro item inItems new
      rw [OpenRun.next_session, OpenRun.process, process_driven run.present,
        Finset.mem_insert, not_or] at new
      refine ⟨new.2, fun same => new.1 ?_, fun same => new.1 ?_⟩
      · rw [catalog.eq_of_key member inItems same]
      · rw [catalog.eq_of_line member inItems same]
    have index : (run.next keys result env).session.hashIndex = run.session.hashIndex :=
      process_hashIndex run.present run.outputPath run.ctx.runId
    have count : ∀ item, keys.itemLine result ≠ keys.itemLine item →
        (w.applyAll (run.process keys result env).2.1).file.lines.count (keys.itemLine item) =
          w.file.lines.count (keys.itemLine item) := by
      intro item other
      rw [World.applyAll_lines, OpenRun.process, process_appends run.present]
      split
      · rw [List.count_append, List.count_singleton, if_neg (by simpa using other), Nat.add_zero]
      · rw [List.append_nil]
    refine ⟨synced.resume, ?_, agrees, ?_, ?_, ?_⟩
    · exact (synced.resuming.process keys run.outputPath run.ctx.runId result env).valid
    · intro item inItems new
      obtain ⟨unclaimed, key, -⟩ := different item inItems new
      rw [elsewhere _ key, ← synced.slot item inItems unclaimed]
      exact process_records_of_ne run.present run.outputPath run.ctx.runId key
    · intro item inItems new absent
      obtain ⟨unclaimed, key, line⟩ := different item inItems new
      rw [elsewhere _ key] at absent
      rw [index, count item line]
      exact synced.unrecorded item inItems unclaimed absent
    · intro item inItems new record found exported
      obtain ⟨unclaimed, key, -⟩ := different item inItems new
      rw [elsewhere _ key] at found
      rw [index]
      exact synced.listed item inItems unclaimed record found exported

/-- The final save of a run in step with its world changes nothing. -/
theorem Synced.finish (synced : Synced keys items run w) (orderly : Orderly keys items w) :
    w.applyAll (run.session.save true) = w := by
  simp only [CommitSession.save, run.present, Option.isSome_some, if_true, World.applyAll_cons,
    World.applyAll_nil, World.apply]
  rw [mergePersist_of_agrees_all orderly.valid synced.agrees]

end OneItem

/-- A whole turn is a turn cut beyond its end. -/
theorem take_beyond (effects : List Effect) : effects.take (effects.length + 2) = effects :=
  List.take_of_length_le (Nat.le_add_right _ _)

/-! ## Whole histories -/

/-- A crash-safe step of a resuming run keeps the state recoverable. -/
theorem exportStep_recoverable (catalog : Catalog keys items) {s t : ExportState}
    (action : ExportAction) (recoverable : Recoverable keys items s)
    (resumed : ResumedStep items action) (safe : CrashSafe keys items s action)
    (step : exportStep keys s action = some t) : Recoverable keys items t := by
  obtain ⟨ctx, outputPath, loaded, rfl, idle, rfl⟩ | ⟨result, env, run, rfl, busy, -, rfl⟩ |
    ⟨result, env, steps, run, rfl, busy, -, rfl⟩ | ⟨saved, run, rfl, busy, rfl⟩ :=
    exportStep_cases step
  · obtain ⟨resume, rfl⟩ := resumed
    refine ⟨recoverable.orderly, recoverable.torn, ?_⟩
    rintro run ⟨⟩
    exact .open recoverable.orderly catalog resume outputPath safe
  · obtain ⟨member, saves⟩ := resumed
    have synced := recoverable.synced run busy
    constructor
    · have whole := synced.orderly_take recoverable.orderly catalog member saves safe
        ((run.process keys result env).2.1.length + 2) (by omega)
      rwa [take_beyond] at whole
    · have whole := synced.torn_take recoverable.orderly catalog member saves safe
        recoverable.torn ((run.process keys result env).2.1.length + 2)
      rwa [take_beyond] at whole
    · rintro next ⟨⟩
      exact synced.next recoverable.orderly catalog member saves safe
  · obtain ⟨member, saves⟩ := resumed
    obtain ⟨timely, cut⟩ := safe
    have synced := recoverable.synced run busy
    exact .stop (synced.orderly_take recoverable.orderly catalog member saves timely steps cut)
      (synced.torn_take recoverable.orderly catalog member saves timely recoverable.torn steps)
  · have synced := recoverable.synced run busy
    cases resumed
    rw [synced.finish recoverable.orderly]
    exact .stop recoverable.orderly recoverable.torn

/-- What the items of the list have taken a turn in the run under way have come to. -/
def DrivenCommitted (keys : ExportKeys) (items : List ScrapedContent) (s : ExportState) : Prop :=
  ∀ run, s.running = some run → ∀ item ∈ items, keys.itemPair item ∈ run.session.driven →
    ∃ record, s.world.store[keys.itemKey item]? = some record ∧ record.status = .committed

/-- The last run: every item in order, then the final save. -/
def lastRun (ctx : ResumeContext) (outputPath : String)
    (turns : List (ScrapedContent × ItemEnv)) : List ExportAction :=
  .openSession ctx outputPath true ::
    (turns.map (fun turn => .item turn.1 turn.2) ++ [.finish true])

/-- One line for every item and nothing else in the file, and every record COMMITTED. -/
def ExportedOnce (keys : ExportKeys) (items : List ScrapedContent) (w : World) : Prop :=
  w.file.lines.Perm (items.map keys.itemLine) ∧ w.file.tail = none ∧
    ∀ item ∈ items, ∃ record, w.store[keys.itemKey item]? = some record ∧
      record.status = .committed

/-- An item exported without an error joins the committed ones. -/
theorem Synced.drivenCommitted_next {run : OpenRun} {w : World} {result : ScrapedContent}
    {env : ItemEnv} (synced : Synced keys items run w) (orderly : Orderly keys items w)
    (catalog : Catalog keys items) (member : result ∈ items) (saves : env.saves = (true, true))
    (timely : Timely keys ⟨w, some run⟩ result env) (ok : env.answer = .ok)
    (committed : DrivenCommitted keys items ⟨w, some run⟩) :
    DrivenCommitted keys items
      ⟨w.applyAll (run.process keys result env).2.1, some (run.next keys result env)⟩ := by
  rintro next ⟨⟩ item inItems claimed
  rw [OpenRun.next_session, OpenRun.process, process_driven run.present,
    Finset.mem_insert] at claimed
  by_cases old : keys.itemPair result ∈ run.session.driven
  · have skipped : (run.process keys result env).2.1 = [] := by
      rw [OpenRun.process, processSingleItem_of_driven run.present old]
    have before : keys.itemPair item ∈ run.session.driven := by
      rcases claimed with same | before
      · rwa [same]
      · exact before
    rw [skipped]
    exact committed run rfl item inItems before
  · obtain ⟨elsewhere, -, settled⟩ := Turn.after orderly.valid (synced.slot result member old)
      (fun k _ => synced.agrees k) (synced.turn orderly catalog member old saves timely)
    by_cases key : keys.itemKey result = keys.itemKey item
    · rw [← key]
      exact settled ok
    · have before : keys.itemPair item ∈ run.session.driven := by
        rcases claimed with same | before
        · rw [catalog.eq_of_hash inItems member (Prod.mk.inj same).2] at key
          exact absurd rfl key
        · exact before
      rw [show (w.applyAll (run.process keys result env).2.1).store[keys.itemKey item]? =
        w.store[keys.itemKey item]? from elsewhere _ key]
      exact committed run rfl item inItems before

/-- Over the turns of the last run, all claimed pairs are committed and no claim is given up. -/
theorem turns_commit (catalog : Catalog keys items) {turns : List (ScrapedContent × ItemEnv)}
    {s t : ExportState} {run : OpenRun} (busy : s.running = some run)
    (recoverable : Recoverable keys items s) (committed : DrivenCommitted keys items s)
    (members : ∀ turn ∈ turns, turn.1 ∈ items)
    (succeed : ∀ turn ∈ turns, turn.2.answer = .ok ∧ turn.2.saves = (true, true))
    (ran : execute (exportStep keys) s (turns.map fun turn => .item turn.1 turn.2) = some t)
    (safe : Along (exportStep keys) (CrashSafe keys items) s
      (turns.map fun turn => .item turn.1 turn.2)) :
    Recoverable keys items t ∧ DrivenCommitted keys items t ∧
      ∃ last, t.running = some last ∧ run.session.driven ⊆ last.session.driven ∧
        ∀ turn ∈ turns, keys.itemPair turn.1 ∈ last.session.driven := by
  induction turns generalizing s run with
  | nil =>
      cases ran
      exact ⟨recoverable, committed, run, busy, subset_rfl, by simp⟩
  | cons turn turns ih =>
      obtain ⟨member, membersLater⟩ := List.forall_mem_cons.mp members
      obtain ⟨⟨ok, saves⟩, succeedLater⟩ := List.forall_mem_cons.mp succeed
      obtain ⟨m, step, rest⟩ := execute_cons_eq_some.mp ran
      obtain ⟨timely, safeLater⟩ := safe
      have here := exportStep_recoverable catalog (.item turn.1 turn.2) recoverable
        ⟨member, saves⟩ timely step
      obtain ⟨_, _, _, ⟨⟩, -⟩ | ⟨_, _, run', ⟨⟩, busy', -, rfl⟩ | ⟨_, _, _, _, ⟨⟩, -⟩ |
        ⟨_, _, ⟨⟩, -⟩ := exportStep_cases step
      rw [busy] at busy'
      cases busy'
      have next := (recoverable.synced run busy).drivenCommitted_next recoverable.orderly catalog
        member saves timely ok (by rwa [← busy])
      obtain ⟨recovers, commits, last, running, grown, claimed⟩ :=
        ih rfl here next membersLater succeedLater rest (safeLater _ step)
      rw [OpenRun.next_session, OpenRun.process, process_driven run.present,
        Finset.insert_subset_iff] at grown
      refine ⟨recovers, commits, last, running, grown.2, ?_⟩
      intro other inTurns
      rcases List.mem_cons.mp inTurns with rfl | later
      · exact grown.1
      · exact claimed other later

/-- An orderly world with every item COMMITTED holds one line for each. -/
theorem exportedOnce_of_committed (catalog : Catalog keys items) {w : World}
    (orderly : Orderly keys items w) (torn : TornByUnlined keys items w.file)
    (committed : ∀ item ∈ items, ∃ record, w.store[keys.itemKey item]? = some record ∧
      record.status = .committed) : ExportedOnce keys items w := by
  have one : ∀ item ∈ items, w.file.lines.count (keys.itemLine item) = 1 := by
    intro item member
    obtain ⟨record, found, status⟩ := committed item member
    have stage := orderly.stage item member
    rw [found] at stage
    exact stage.count_of_claims (by rw [status]; rfl)
  have distinct : (items.map keys.itemLine).Nodup := by
    refine List.Nodup.map_on (fun a left b right same => ?_) catalog.distinctKeys.of_map
    exact catalog.eq_of_line left right same
  refine ⟨?_, ?_, committed⟩
  · rw [List.perm_iff_count]
    intro line
    by_cases listed : line ∈ items.map keys.itemLine
    · obtain ⟨item, member, rfl⟩ := List.mem_map.mp listed
      rw [one item member, List.count_eq_one_of_mem distinct listed]
    · rw [List.count_eq_zero_of_not_mem listed, List.count_eq_zero]
      intro inFile
      obtain ⟨item, member, rfl⟩ := orderly.lines line inFile
      exact listed (List.mem_map_of_mem member)
  · by_contra tail
    obtain ⟨item, member, unlined⟩ := torn tail
    rw [orderly.count_eq_one member] at unlined
    exact unlined (one item member)

/-- Whatever failures and kills came before: when a last run over the whole list exports every
item, and no step was crash-unsafe, every item has exactly one line and is COMMITTED. -/
theorem one_line_per_item (catalog : Catalog keys items) {history : List ExportAction}
    (resumed : ∀ action ∈ history, ResumedStep items action) {ctx : ResumeContext}
    (resume : ctx.resume = true) {outputPath : String} {turns : List (ScrapedContent × ItemEnv)}
    (whole : turns.map Prod.fst = items)
    (succeed : ∀ turn ∈ turns, turn.2.answer = .ok ∧ turn.2.saves = (true, true))
    {t : ExportState}
    (ran : execute (exportStep keys) .start (history ++ lastRun ctx outputPath turns) = some t)
    (safe : Along (exportStep keys) (CrashSafe keys items) .start
      (history ++ lastRun ctx outputPath turns)) :
    ExportedOnce keys items t.world := by
  obtain ⟨crashed, ranHistory, ranLast⟩ := execute_append_eq_some.mp ran
  obtain ⟨safeHistory, safeLast⟩ := along_append.mp safe
  have kept : ∀ s action s', Recoverable keys items s →
      (ResumedStep items action ∧ CrashSafe keys items s action) →
      exportStep keys s action = some s' → Recoverable keys items s' :=
    fun s action s' recoverable both step =>
      exportStep_recoverable catalog action recoverable both.1 both.2 step
  have recoverable : Recoverable keys items crashed := by
    have resumes : Along (exportStep keys) (fun _ => ResumedStep items) .start history :=
      .of_forall (fun action member _ => resumed action member) _
    exact execute_invariant_along kept ranHistory (resumes.and safeHistory) .start
  obtain ⟨opened, openStep, ranTurns⟩ := execute_cons_eq_some.mp ranLast
  obtain ⟨safeOpen, safeRest⟩ := safeLast _ ranHistory
  obtain ⟨finished, ranItems, ranFinish⟩ := execute_append_eq_some.mp ranTurns
  have members : ∀ turn ∈ turns, turn.1 ∈ items := by
    intro turn inTurns
    rw [← whole]
    exact List.mem_map_of_mem inTurns
  have openRecoverable := exportStep_recoverable catalog
    (.openSession ctx outputPath true) recoverable ⟨resume, rfl⟩ safeOpen openStep
  obtain ⟨_, _, _, ⟨⟩, -, rfl⟩ | ⟨_, _, _, ⟨⟩, -⟩ | ⟨_, _, _, _, ⟨⟩, -⟩ | ⟨_, _, ⟨⟩, -⟩ :=
    exportStep_cases openStep
  have none : DrivenCommitted keys items
      ⟨crashed.world, some (crashed.world.openRun ctx outputPath true)⟩ := by
    rintro run ⟨⟩ item - claimed
    cases claimed
  obtain ⟨recovers, commits, last, running, -, claimed⟩ := turns_commit catalog rfl
    openRecoverable none members succeed ranItems (along_append.mp (safeRest _ openStep)).1
  have ended : t.world = finished.world := by
    obtain ⟨last', finishStep, ⟨⟩⟩ := execute_cons_eq_some.mp ranFinish
    simp only [exportStep, running, Option.some.injEq] at finishStep
    rw [← finishStep]
    exact (recovers.synced last running).finish recovers.orderly
  rw [ended]
  refine exportedOnce_of_committed catalog recovers.orderly recovers.torn fun item member => ?_
  rw [← whole] at member
  obtain ⟨turn, inTurns, rfl⟩ := List.mem_map.mp member
  exact commits last running turn.1 (members turn inTurns) (claimed turn inTurns)

end Keys

/-! ## Crashes of a two-page crawl -/

/-- Two pages with contents of their own. -/
def twoPages : List ScrapedContent := [pageOf "a" "x" rfl, pageOf "b" "y" rfl]

theorem catalog_twoPages : Catalog plainKeys twoPages where
  distinctKeys := by decide
  distinctContents := by decide
  digests _ _ _ _ same := same
  meaningful := by decide
  validates := by decide +kernel

/-- The surroundings of an exporter that leaves half a line behind. -/
def failing (now : Int) : ItemEnv :=
  ⟨now, .err (.writeError "disk full") (.torn false true), (true, true), false⟩

/-- Page `a` fails, and the process is killed after `steps` durable steps of `crashed`. -/
def failThenCrash (crashed : ScrapedContent) (steps : Nat) : List ExportAction :=
  [.openSession ⟨"r1", true⟩ "out" true, .item (pageOf "a" "x" rfl) (failing 1),
    .finish true, .openSession ⟨"r2", true⟩ "out" true, .kill crashed (fine 2) steps]

/-- The run that completes the crawl. -/
def completingRun : List ExportAction :=
  lastRun ⟨"r3", true⟩ "out" (twoPages.map fun page => (page, fine 3))

theorem failThenCrash_resumed {crashed : ScrapedContent} (member : crashed ∈ twoPages)
    (steps : Nat) : ∀ action ∈ failThenCrash crashed steps, ResumedStep twoPages action := by
  simpa [failThenCrash, ResumedStep, failing, fine, twoPages] using member

/-- Page `b` is killed behind its append: it has no record, so its line is found again. -/
theorem one_line_per_item_after_crash :
    ∃ t, execute (exportStep plainKeys) .start
        (failThenCrash (pageOf "b" "y" (by decide)) 1 ++ completingRun) = some t ∧
      ExportedOnce plainKeys twoPages t.world := by
  have finished : (execute (exportStep plainKeys) .start
      (failThenCrash (pageOf "b" "y" (by decide)) 1 ++ completingRun)).isSome := by
    decide +kernel
  obtain ⟨t, ran⟩ := Option.isSome_iff_exists.mp finished
  exact ⟨t, ran, one_line_per_item catalog_twoPages
    (failThenCrash_resumed (by simp [twoPages]) 1) rfl (by simp [twoPages]) (by simp [fine]) ran
    (by decide +kernel)⟩

/-- Page `a`, whose failure is on record, is killed behind its append and exported again. -/
theorem failed_page_exported_twice :
    ∃ t, execute (exportStep plainKeys) .start
        (failThenCrash (pageOf "a" "x" (by decide)) 1 ++ completingRun) = some t ∧
      (∀ action ∈ failThenCrash (pageOf "a" "x" (by decide)) 1, ResumedStep twoPages action) ∧
      ¬ ExportedOnce plainKeys twoPages t.world := by
  have twice : ((execute (exportStep plainKeys) .start
      (failThenCrash (pageOf "a" "x" (by decide)) 1 ++ completingRun)).any fun t =>
        decide (t.world.file.lines.length = 3)) = true := by
    decide +kernel
  obtain ⟨t, ran, three⟩ := (Option.any_eq_true _ _).mp twice
  refine ⟨t, ran, failThenCrash_resumed (by simp [twoPages]) 1, fun once => ?_⟩
  have lines := once.1.length_eq
  rw [of_decide_eq_true three] at lines
  cases lines

end Webfang
