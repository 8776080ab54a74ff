import Webfang.Lib.Execution
import Webfang.Export.ItemRoute

/-!
# The export phase as a step system

Runs of `process_results` over one output file and one record store, item by item.  An
item either performs all its durable steps or the process is killed after some of them; a
killed run leaves the world as the performed steps left it, and the session is gone.
`processResults_executes` ties the system to the calls.
-/

namespace Webfang

open KeyedMerge StepSystem

/-- A run under way: its session over a record store, and whether cancellation has ended
its loop. -/
structure OpenRun where
  ctx : ResumeContext
  session : CommitSession
  present : session.ctx = some ctx
  outputPath : String
  stopped : Bool

structure ExportState where
  world : World
  running : Option OpenRun

/-- Nothing exported yet: no output file, an empty store, no session. -/
def ExportState.start : ExportState := ⟨⟨.empty, ∅⟩, none⟩

inductive ExportAction
  | openSession (ctx : ResumeContext) (outputPath : String) (loaded : Bool)
  | item (result : ScrapedContent) (env : ItemEnv)
  /-- the process dies after the first `steps` durable steps of an item -/
  | kill (result : ScrapedContent) (env : ItemEnv) (steps : Nat)
  /-- the loop is over: `final_persist` -/
  | finish (saved : Bool)

def World.applyAll (w : World) (effects : List Effect) : World := effects.foldl World.apply w

@[simp] theorem World.applyAll_nil (w : World) : w.applyAll [] = w := rfl

@[simp] theorem World.applyAll_cons (w : World) (effect : Effect) (effects : List Effect) :
    w.applyAll (effect :: effects) = (w.apply effect).applyAll effects := rfl

theorem World.applyAll_append (w : World) (before after : List Effect) :
    w.applyAll (before ++ after) = (w.applyAll before).applyAll after :=
  List.foldl_append

section Keys

variable (keys : ExportKeys)

/-- The run a session opens with. -/
def World.openRun (w : World) (ctx : ResumeContext) (outputPath : String) (loaded : Bool) :
    OpenRun where
  ctx := ctx
  session := .open (some ctx) (w.loadPreserving loaded) w.file
  present := rfl
  outputPath := outputPath
  stopped := false

/-- `process_single_item` within a run. -/
def OpenRun.process (run : OpenRun) (result : ScrapedContent) (env : ItemEnv) :
    CommitSession × List Effect × SingleItemOutcome :=
  processSingleItem keys run.session result run.outputPath run.ctx.runId env

/-- The run after an item. -/
def OpenRun.next (run : OpenRun) (result : ScrapedContent) (env : ItemEnv) : OpenRun where
  ctx := run.ctx
  session := (run.process keys result env).1
  present := processSingleItem_ctx run.present
  outputPath := run.outputPath
  stopped := decide ((run.process keys result env).2.2 = .cancelled)

def exportStep (s : ExportState) : ExportAction → Option ExportState
  | .openSession ctx outputPath loaded =>
      match s.running with
      | some _ => none
      | none => some { s with running := some (s.world.openRun ctx outputPath loaded) }
  | .item result env =>
      match s.running with
      | none => none
      | some run =>
          if run.stopped then
            none
          else
            some
              { world := s.world.applyAll (run.process keys result env).2.1
                running := some (run.next keys result env) }
  | .kill result env steps =>
      match s.running with
      | none => none
      | some run =>
          if run.stopped then
            none
          else
            some
              { world := s.world.applyAll ((run.process keys result env).2.1.take steps)
                running := none }
  | .finish saved =>
      match s.running with
      | none => none
      | some run => some { world := s.world.applyAll (run.session.save saved), running := none }

variable {keys}

@[simp] theorem OpenRun.next_session (run : OpenRun) (result : ScrapedContent) (env : ItemEnv) :
    (run.next keys result env).session = (run.process keys result env).1 := rfl

@[simp] theorem OpenRun.next_ctx (run : OpenRun) (result : ScrapedContent) (env : ItemEnv) :
    (run.next keys result env).ctx = run.ctx := rfl

/-- An item of a run follows its route. -/
theorem OpenRun.process_eq (run : OpenRun) (result : ScrapedContent) (env : ItemEnv) :
    run.process keys result env =
      let route := run.session.route keys result env.answer
      let followed := (run.session.claimed keys result).follow keys result run.outputPath
        run.ctx.runId run.ctx.runId env route
      (followed.1, followed.2, route.outcome env.cancelled) :=
  processSingleItem_eq run.present result run.outputPath run.ctx.runId env

/-! ## Inversion -/

/-- What an enabled step of each kind does. -/
theorem exportStep_cases {s t : ExportState} {action : ExportAction}
    (step : exportStep keys s action = some t) :
    (∃ ctx outputPath loaded, action = .openSession ctx outputPath loaded ∧ s.running = none ∧
      t = ⟨s.world, some (s.world.openRun ctx outputPath loaded)⟩) ∨
    (∃ result env run, action = .item result env ∧ s.running = some run ∧ run.stopped = false ∧
      t = ⟨s.world.applyAll (run.process keys result env).2.1,
        some (run.next keys result env)⟩) ∨
    (∃ result env steps run, action = .kill result env steps ∧ s.running = some run ∧
      run.stopped = false ∧
      t = ⟨s.world.applyAll ((run.process keys result env).2.1.take steps), none⟩) ∨
    (∃ saved run, action = .finish saved ∧ s.running = some run ∧
      t = ⟨s.world.applyAll (run.session.save saved), none⟩) := by
  cases action with
  | openSession ctx outputPath loaded =>
      unfold exportStep at step
      cases idle : s.running with
      | some run => simp [idle] at step
      | none =>
          simp only [idle, Option.some.injEq] at step
          exact .inl ⟨ctx, outputPath, loaded, rfl, rfl, step.symm⟩
  | item result env =>
      unfold exportStep at step
      cases busy : s.running with
      | none => simp [busy] at step
      | some run =>
          cases stopped : run.stopped with
          | true => simp [busy, stopped] at step
          | false =>
              simp only [busy, stopped, Bool.false_eq_true, if_false, Option.some.injEq] at step
              exact .inr (.inl ⟨result, env, run, rfl, rfl, stopped, step.symm⟩)
  | kill result env steps =>
      unfold exportStep at step
      cases busy : s.running with
      | none => simp [busy] at step
      | some run =>
          cases stopped : run.stopped with
          | true => simp [busy, stopped] at step
          | false =>
              simp only [busy, stopped, Bool.false_eq_true, if_false, Option.some.injEq] at step
              exact .inr (.inr (.inl ⟨result, env, steps, run, rfl, rfl, stopped, step.symm⟩))
  | finish saved =>
      unfold exportStep at step
      cases busy : s.running with
      | none => simp [busy] at step
      | some run =>
          simp only [busy, Option.some.injEq] at step
          exact .inr (.inr (.inr ⟨saved, run, rfl, rfl, step.symm⟩))

/-! ## The calls are executions -/

/-- The loop of a call runs a prefix of its items, all of them unless cancelled. -/
theorem processItems_executes (keys : ExportKeys) (run : OpenRun) (w : World)
    (going : run.stopped = false) (items : List (ScrapedContent × ItemEnv)) :
    ∃ handled last, handled <+: items ∧
      execute (exportStep keys) ⟨w, some run⟩ (handled.map fun i => .item i.1 i.2) =
        some ⟨w.applyAll (processItems keys run.outputPath run.ctx.runId run.session items).2.1,
          some last⟩ ∧
      last.session = (processItems keys run.outputPath run.ctx.runId run.session items).1 := by
  induction items generalizing run w with
  | nil => exact ⟨[], run, List.nil_prefix, rfl, rfl⟩
  | cons head items ih =>
      obtain ⟨result, env⟩ := head
      have here : exportStep keys ⟨w, some run⟩ (.item result env) =
          some ⟨w.applyAll (run.process keys result env).2.1,
            some (run.next keys result env)⟩ := by
        simp [exportStep, going]
      cases outcome : (run.process keys result env).2.2 with
      | cancelled =>
          refine ⟨[(result, env)], run.next keys result env, ⟨items, rfl⟩, ?_, ?_⟩
          · rw [processItems_of_cancelled outcome, List.map_singleton, execute_cons, here]
            rfl
          · rw [processItems_of_cancelled outcome]
            rfl
      | driven | skipped =>
          have continues : (run.process keys result env).2.2 ≠ .cancelled := by
            simp [outcome]
          obtain ⟨handled, last, initial, ran, final⟩ :=
            ih (run.next keys result env) (w.applyAll (run.process keys result env).2.1)
              (by simp [OpenRun.next, outcome])
          refine ⟨(result, env) :: handled, last, ?_, ?_, ?_⟩
          · exact (List.cons_prefix_cons).mpr ⟨rfl, initial⟩
          · rw [List.map_cons, execute_cons, here, Option.bind_some, ran,
              processItems_of_going continues, World.applyAll_append]
            rfl
          · rw [final, processItems_of_going continues]
            rfl

/-- A call of `process_results` is an execution of the step system over its items. -/
theorem processResults_executes (w : World) (run : ExportRun) {ctx : ResumeContext}
    (present : run.ctx = some ctx) :
    ∃ handled, handled <+: run.items ∧
      execute (exportStep keys) ⟨w, none⟩
        (.openSession ctx run.outputPath run.loaded ::
          (handled.map fun i => .item i.1 i.2) ++ [.finish run.finalSave]) =
        some ⟨w.afterRun keys run, none⟩ := by
  have opened : run.openSession w = (w.openRun ctx run.outputPath run.loaded).session := by
    rw [ExportRun.openSession, present]
    rfl
  have runId : run.runId = ctx.runId := by rw [ExportRun.runId, present]; rfl
  obtain ⟨handled, last, initial, ran, final⟩ :=
    processItems_executes keys (w.openRun ctx run.outputPath run.loaded) w rfl run.items
  refine ⟨handled, initial, ?_⟩
  rw [List.cons_append, execute_cons]
  simp only [exportStep, Option.bind_some]
  rw [execute_append, ran, Option.bind_some, execute_cons]
  simp only [exportStep, Option.bind_some, execute_nil, Option.some.injEq]
  rw [final, World.afterRun, processResults, opened, runId]
  simp only [World.openRun]
  rw [← World.applyAll_append]
  rfl

end Keys

/-! ## What holds of the file and the store -/

theorem World.applyAll_lines (w : World) (effects : List Effect) :
    (w.applyAll effects).file.lines = w.file.lines ++ appendedLines effects := by
  induction effects generalizing w with
  | nil => simp
  | cons effect effects ih =>
      rw [World.applyAll_cons, ih]
      cases effect with
      | append line => simp [World.apply]
      | tear tail => rfl
      | persist records saved => cases saved <;> rfl

/-- What every persisted map satisfies, the store satisfies. -/
theorem World.applyAll_keeps {P : List ExportLine → String → RawRecord → Prop}
    (grow : ∀ lines line k r, P lines k r → P (lines ++ [line]) k r) {w : World}
    (store : AllEntries (P w.file.lines) w.store) {effects : List Effect}
    (keep : EffectsKeep P w.file.lines effects) :
    AllEntries (P (w.applyAll effects).file.lines) (w.applyAll effects).store := by
  induction effects generalizing w with
  | nil => exact store
  | cons effect effects ih =>
      rw [World.applyAll_cons]
      cases effect with
      | append line => exact ih (w := w.apply (.append line)) (store.mono (grow _ _)) keep
      | tear tail => exact ih (w := w.apply (.tear tail)) store keep
      | persist records saved =>
          cases saved with
          | true =>
              exact ih (w := w.apply (.persist records true))
                (allEntries_mergePersist keep.1 store) keep.2
          | false => exact ih (w := w.apply (.persist records false)) store keep.2

theorem loadPreserving_keeps {P : String → RawRecord → Prop} {w : World}
    (store : AllEntries P w.store) (loaded : Bool) : AllEntries P (w.loadPreserving loaded) := by
  unfold World.loadPreserving
  split
  · exact allEntries_validateAndQuarantine store
  · exact AllEntries.empty

/-- What a load hands out is valid. -/
theorem loadPreserving_valid (w : World) (loaded : Bool) :
    AllEntries (fun _ record => record.Valid) (w.loadPreserving loaded) := by
  unfold World.loadPreserving
  split
  · exact fun k record found => (validateAndQuarantine_eq_some.mp found).2
  · exact AllEntries.empty

end Webfang
