import Webfang.Batch.BatchAccounting

/-!
# Cancellation of a batch

The loop of a call tests the token, then waits for a permit, and spawns its task without a second
test.  So a URL is dispatched behind the token just when that fires between the test and the spawn;
no job is taken up behind it, the semaphore bounds the tasks that run, and a call returns with all
of its tasks joined, wherever it fires.
-/

namespace Webfang.Batch

open StepSystem Parties

variable {ε : Type}

/-! ## Tasks that run -/

def BatchTask.runShare (task : BatchTask ε) : Nat := if task.ended.isSome then 0 else 1

def runningOf (tasks : List (BatchTask ε)) : Nat := (tasks.map (·.runShare)).sum

/-- The permit of a URL that is still to be spawned. -/
def LoopStage.grant : LoopStage → Nat
  | .testing => 0
  | .waiting _ => 0
  | .granted _ => 1
  | .joining => 0

/-- The tasks of the call that run. -/
def BatchSystem.running (s : BatchSystem ε) : Nat := (s.call.map (runningOf ·.tasks)).getD 0

def BatchSystem.granted (s : BatchSystem ε) : Nat := (s.call.map (·.stage.grant)).getD 0

/-- The permits of the semaphore are free, granted to the loop or held by tasks. -/
structure Governed (s : BatchSystem ε) : Prop where
  sound : Sound s
  permits : s.permits + s.running + s.granted = s.maxConcurrentJobs

theorem runningOf_eq_zero {tasks : List (BatchTask ε)} (all : ∀ task ∈ tasks, task.ended.isSome) :
    runningOf tasks = 0 := by
  rw [runningOf, List.sum_eq_zero]
  intro share member
  obtain ⟨task, inside, rfl⟩ := List.mem_map.mp member
  rw [BatchTask.runShare, if_pos (all task inside)]

/-! ## The window -/

/-- From the test of the token to the spawn. -/
def LoopStage.window : LoopStage → Bool
  | .testing => false
  | .waiting _ => true
  | .granted _ => true
  | .joining => false

def BatchSystem.inWindow (s : BatchSystem ε) : Bool := (s.call.map (·.stage.window)).getD false

/-- The token does not fire in the window. -/
def FiresOutside (s : BatchSystem ε) (a : BatchAction ε) : Prop := a = .fire → s.inWindow = false

/-- The tasks of all calls. -/
def BatchSystem.dispatched (s : BatchSystem ε) : List (BatchTask ε) :=
  s.records.flatMap (·.tasks) ++ (s.call.map (·.tasks)).getD []

/-- No task was spawned after the token had fired. -/
def Punctual (s : BatchSystem ε) : Prop := ∀ task ∈ s.dispatched, task.late = false

/-- The jobs for which a call has begun. -/
def BatchSystem.started (s : BatchSystem ε) : List BatchJob :=
  s.records.map (·.job) ++ (s.call.map (·.job)).toList

/-- The steps other than new calls. -/
def BatchAction.within : BatchAction ε → Bool
  | .processBatch _ _ => false
  | .processAll _ => false
  | .fire => true
  | .turn => true
  | .test => true
  | .acquire => true
  | .spawn => true
  | .finish _ _ => true
  | .join _ => true
  | .conclude => true

section Steps

variable {s s' : BatchSystem ε} {call : BatchCall ε} {a : BatchAction ε}

theorem test_tasks (call : BatchCall ε) (fired : Bool) : (call.test fired).tasks = call.tasks := by
  rw [BatchCall.test]
  split
  · rfl
  · split <;> rfl

theorem test_job (call : BatchCall ε) (fired : Bool) : (call.test fired).job = call.job := by
  rw [BatchCall.test]
  split
  · rfl
  · split <;> rfl

theorem test_grant (call : BatchCall ε) (fired : Bool) : (call.test fired).stage.grant = 0 := by
  rw [BatchCall.test]
  split
  · rfl
  · split <;> rfl

/-- The window is entered only where the token was not seen fired. -/
theorem test_window (call : BatchCall ε) {fired : Bool} (seen : fired = true) :
    (call.test fired).stage.window = false := by
  rw [BatchCall.test]
  split
  · rfl
  · rw [if_pos seen]
    rfl

/-! ## The semaphore -/

theorem permits_inside (sound : Sound s) (under : s.call = some call) (move : CallMove s call a s') :
    s'.permits + s'.running + s'.granted = s.permits + s.running + s.granted := by
  have running : s.running = runningOf call.tasks := by
    rw [BatchSystem.running, under]
    rfl
  have granted : s.granted = call.stage.grant := by
    rw [BatchSystem.granted, under]
    rfl
  rw [running, granted]
  cases move with
  | test stage =>
      rw [stage]
      change s.permits + runningOf (call.test s.fired).tasks + (call.test s.fired).stage.grant = _
      rw [test_tasks, test_grant]
      rfl
  | acquire stage free =>
      rw [stage]
      change s.permits - 1 + runningOf call.tasks + 1 = s.permits + runningOf call.tasks + 0
      omega
  | @spawn url stage =>
      rw [stage]
      change s.permits + runningOf (call.tasks ++ [⟨url, none, false, s.fired⟩]) + 0 =
        s.permits + runningOf call.tasks + 1
      rw [runningOf, sum_concat]
      rfl
  | @finish i ended task found running =>
      have sums := sum_set BatchTask.runShare found { task with ended := some ended }
      have before : task.runShare = 1 := by
        rw [BatchTask.runShare, running]
        rfl
      have behind : ({ task with ended := some ended } : BatchTask ε).runShare = 0 := rfl
      rw [before, behind, ← runningOf, ← runningOf] at sums
      change s.permits + 1 + runningOf (call.tasks.set i { task with ended := some ended }) +
        call.stage.grant = s.permits + runningOf call.tasks + call.stage.grant
      omega
  | @join i task ended stage found still done =>
      have sums := sum_set BatchTask.runShare found { task with joined := true }
      have same : ({ task with joined := true } : BatchTask ε).runShare = task.runShare := rfl
      rw [same] at sums
      change s.permits + runningOf (call.tasks.set i { task with joined := true }) +
        call.stage.grant = s.permits + runningOf call.tasks + call.stage.grant
      rw [runningOf, Nat.add_right_cancel sums, ← runningOf]
  | conclude stage all =>
      have ended : ∀ task ∈ call.tasks, task.ended.isSome := fun task member =>
        (sound.call call under).ended task member (List.all_eq_true.mp all task member)
      rw [stage, runningOf_eq_zero ended]
      rfl

/-- A call that begins holds no permit. -/
theorem permits_start (s : BatchSystem ε) (idle : s.call = none) (job : BatchJob) :
    (s.start job).permits + (s.start job).running + (s.start job).granted =
      s.permits + s.running + s.granted := by
  have running : s.running = 0 := by
    rw [BatchSystem.running, idle]
    rfl
  have granted : s.granted = 0 := by
    rw [BatchSystem.granted, idle]
    rfl
  rw [running, granted, BatchSystem.start]
  split
  · change s.permits + s.running + s.granted = _
    rw [running, granted]
  · rfl

theorem permits_step (sound : Sound s) (step : batchStep s a = some s') :
    s'.permits + s'.running + s'.granted = s.permits + s.running + s.granted := by
  cases batchStep_move step with
  | fire => rfl
  | @processBatch job fired free idle known =>
      exact permits_start { s with pending := some [], fired := fired, results := [] } idle job
  | processAll free idle => rfl
  | returned idle under stop => rfl
  | @taken job jobs idle under unfired =>
      exact permits_start { s with pending := some jobs } idle job
  | inside under move => exact permits_inside sound under move

theorem maxConcurrentJobs_start (s : BatchSystem ε) (job : BatchJob) :
    (s.start job).maxConcurrentJobs = s.maxConcurrentJobs := by
  rw [BatchSystem.start]
  split <;> rfl

theorem maxConcurrentJobs_step (step : batchStep s a = some s') :
    s'.maxConcurrentJobs = s.maxConcurrentJobs := by
  cases batchStep_move step with
  | fire => rfl
  | processBatch free idle known => exact maxConcurrentJobs_start _ _
  | processAll free idle => rfl
  | returned idle under stop => rfl
  | taken idle under unfired => exact maxConcurrentJobs_start _ _
  | inside under move => cases move <;> rfl

theorem Governed.step (governed : Governed s) (step : batchStep s a = some s') : Governed s' where
  sound := governed.sound.step step
  permits := by
    rw [permits_step governed.sound step, maxConcurrentJobs_step step]
    exact governed.permits

theorem Ready.governed (ready : Ready s) : Governed s where
  sound := ready.sound
  permits := by
    rw [BatchSystem.running, BatchSystem.granted, ready.call]
    exact ready.permits

/-! ## The token -/

/-- Punctual so far, and not about to be late. -/
def OnTime (s : BatchSystem ε) : Prop := Punctual s ∧ (s.fired = true → s.inWindow = false)

theorem dispatched_of_call (under : s.call = some call) :
    s.dispatched = s.records.flatMap (·.tasks) ++ call.tasks := by
  rw [BatchSystem.dispatched, under]
  rfl

theorem inWindow_of_call (under : s.call = some call) : s.inWindow = call.stage.window := by
  rw [BatchSystem.inWindow, under]
  rfl

theorem inWindow_of_idle (idle : s.call = none) : s.inWindow = false := by
  rw [BatchSystem.inWindow, idle]
  rfl

/-- A step between two calls dispatches nothing. -/
theorem onTime_between (idle : s.call = none) (window : s'.inWindow = false)
    (same : s'.dispatched = s.dispatched) : OnTime s' ↔ OnTime s := by
  rw [OnTime, OnTime, Punctual, Punctual, same, window, inWindow_of_idle idle]
  exact and_congr_right fun _ => iff_of_true (fun _ => rfl) fun _ => rfl

/-- A task that moves is as late as it was. -/
theorem late_set {tasks : List (BatchTask ε)} {i : Nat} {task moved : BatchTask ε}
    (found : tasks[i]? = some task) (same : moved.late = task.late) :
    (∀ task ∈ tasks.set i moved, task.late = false) ↔ ∀ task ∈ tasks, task.late = false := by
  have lates := map_set_same (·.late) found same
  rw [← List.forall_mem_map (P := (· = false)), lates, List.forall_mem_map]

theorem onTime_inside (under : s.call = some call) (move : CallMove s call a s') :
    OnTime s' ↔ OnTime s := by
  rw [OnTime, OnTime, Punctual, Punctual, dispatched_of_call under, inWindow_of_call under]
  cases move with
  | test stage =>
      rw [dispatched_of_call rfl, inWindow_of_call rfl, test_tasks, stage]
      exact and_congr_right fun _ => iff_of_true (test_window call) fun _ => rfl
  | acquire stage free =>
      rw [dispatched_of_call rfl, inWindow_of_call rfl, stage]
      exact Iff.rfl
  | @spawn url stage =>
      -- the task is late just where the token had fired in the window
      rw [dispatched_of_call rfl, inWindow_of_call rfl, stage, ← List.append_assoc,
        List.forall_mem_append, List.forall_mem_singleton]
      cases fired : s.fired with
      | false =>
          refine and_congr (and_iff_left rfl) (iff_of_true ?_ ?_)
          · exact fun _ => rfl
          · intro seen
            cases seen
      | true =>
          refine iff_of_false ?_ ?_
          · intro given
            rcases given with ⟨⟨-, late⟩, -⟩
            cases late
          · intro given
            rcases given with ⟨-, early⟩
            cases early rfl
  | finish found running =>
      rw [dispatched_of_call rfl, inWindow_of_call rfl, List.forall_mem_append,
        List.forall_mem_append]
      exact and_congr_left fun _ => and_congr_right fun _ => late_set found rfl
  | join stage found still done =>
      rw [dispatched_of_call rfl, inWindow_of_call rfl, List.forall_mem_append,
        List.forall_mem_append]
      exact and_congr_left fun _ => and_congr_right fun _ => late_set found rfl
  | conclude stage all =>
      rw [inWindow_of_idle rfl, stage, BatchSystem.dispatched, List.flatMap_append,
        List.flatMap_singleton, Option.map_none, Option.getD_none, List.append_nil]
      exact Iff.rfl

theorem onTime_start (idle : s.call = none) (job : BatchJob) : OnTime (s.start job) ↔ OnTime s := by
  rw [BatchSystem.start]
  split
  · exact onTime_between idle (inWindow_of_idle idle) rfl
  · refine onTime_between idle rfl ?_
    rw [BatchSystem.dispatched, BatchSystem.dispatched, idle]
    rfl

/-- The steps other than `fire` are all timely. -/
theorem firesOutside_of_ne (other : a ≠ .fire) : FiresOutside s a := fun same => absurd same other

theorem onTime_step (step : batchStep s a = some s') :
    OnTime s' ↔ OnTime s ∧ FiresOutside s a := by
  cases batchStep_move step with
  | fire =>
      refine ⟨fun onTime => ⟨⟨onTime.1, fun _ => onTime.2 rfl⟩, fun _ => onTime.2 rfl⟩, ?_⟩
      exact fun timely => ⟨timely.1.1, fun _ => timely.2 rfl⟩
  | @processBatch job fired free idle known =>
      refine Iff.trans ?_ (and_iff_left (firesOutside_of_ne fun same => by cases same)).symm
      refine Iff.trans (onTime_start (by exact idle) job) ?_
      exact onTime_between idle (inWindow_of_idle idle) rfl
  | processAll free idle =>
      refine Iff.trans ?_ (and_iff_left (firesOutside_of_ne fun same => by cases same)).symm
      exact onTime_between idle (inWindow_of_idle idle) rfl
  | returned idle under stop =>
      refine Iff.trans ?_ (and_iff_left (firesOutside_of_ne fun same => by cases same)).symm
      exact onTime_between idle (inWindow_of_idle idle) rfl
  | @taken job jobs idle under unfired =>
      refine Iff.trans ?_ (and_iff_left (firesOutside_of_ne fun same => by cases same)).symm
      refine Iff.trans (onTime_start (by exact idle) job) ?_
      exact onTime_between idle (inWindow_of_idle idle) rfl
  | inside under move =>
      refine (onTime_inside under move).trans (and_iff_left ?_).symm
      refine firesOutside_of_ne fun same => ?_
      cases same
      cases move

/-! ## The jobs behind the token -/

/-- Behind the token a step within the call begins no job. -/
theorem started_step (fired : s.fired = true) (within : a.within = true)
    (step : batchStep s a = some s') : s'.started = s.started ∧ s'.fired = true := by
  cases batchStep_move step with
  | fire => exact ⟨rfl, rfl⟩
  | processBatch free idle known => cases within
  | processAll free idle => cases within
  | returned idle under stop => exact ⟨rfl, fired⟩
  | taken idle under unfired =>
      rw [fired] at unfired
      cases unfired
  | @inside call _ _ under move =>
      have before : s.started = s.records.map (·.job) ++ [call.job] := by
        rw [BatchSystem.started, under]
        rfl
      rw [before]
      cases move with
      | test stage =>
          refine ⟨?_, fired⟩
          change s.records.map (·.job) ++ [(call.test s.fired).job] = _
          rw [test_job]
      | acquire stage free => exact ⟨rfl, fired⟩
      | spawn stage => exact ⟨rfl, fired⟩
      | finish found running => exact ⟨rfl, fired⟩
      | join stage found still done => exact ⟨rfl, fired⟩
      | conclude stage all =>
          refine ⟨?_, fired⟩
          rw [BatchSystem.started, List.map_append]
          exact List.append_nil _

end Steps

/-! ## Runs -/

section Runs

variable {s t u : BatchSystem ε} {as bs : List (BatchAction ε)}

theorem Ready.onTime (ready : Ready s) : OnTime s := by
  refine ⟨?_, fun _ => inWindow_of_idle ready.call⟩
  rw [Punctual, BatchSystem.dispatched, ready.records, ready.call]
  intro task member
  cases member

theorem Ready.run_governed (ready : Ready s) (run : execute batchStep s as = some t) :
    Governed t ∧ t.maxConcurrentJobs = s.maxConcurrentJobs :=
  execute_invariant (I := fun u => Governed u ∧ u.maxConcurrentJobs = s.maxConcurrentJobs)
    (fun _ _ _ kept step =>
      ⟨kept.1.step step, (maxConcurrentJobs_step step).trans kept.2⟩) run ⟨ready.governed, rfl⟩

/-- Behind the token no job is begun in the rest of the call. -/
theorem run_started (fired : t.fired = true) (within : ∀ b ∈ bs, b.within = true)
    (run : execute batchStep t bs = some u) : u.started = t.started := by
  have along : Along batchStep (fun _ b => b.within = true) t bs :=
    .of_forall (fun b member _ => within b member) t
  exact (execute_invariant_along (I := fun v => v.started = t.started ∧ v.fired = true)
    (fun _ _ _ kept inner step =>
      have next := started_step kept.2 inner step
      ⟨next.1.trans kept.1, next.2⟩) run along ⟨rfl, fired⟩).1

/-- A run is on time just where the token never fires in the window. -/
theorem Ready.onTime_iff (ready : Ready s) (run : execute batchStep s as = some t) :
    OnTime t ↔ Along batchStep FiresOutside s as := by
  refine (good_iff_along (I := fun _ => True) (fun _ _ _ _ _ => trivial)
    (fun _ _ _ (done : False) => done.elim) (fun _ _ _ _ step _ => onTime_step step) run id trivial).trans ?_
  exact and_iff_right ready.onTime

/-- What a cancelled call is to keep to, but for the URLs dispatched behind the token. -/
structure Drained (s t : BatchSystem ε) : Prop where
  limit : t.running ≤ s.maxConcurrentJobs
  joined : ∀ r ∈ t.records, ∀ task ∈ r.tasks, task.joined = true
  jobs : ∀ bs u, (∀ b ∈ bs, b.within = true) → t.fired = true →
    execute batchStep t bs = some u → u.started = t.started

theorem Ready.drained (ready : Ready s) (run : execute batchStep s as = some t) : Drained s t := by
  obtain ⟨governed, same⟩ := ready.run_governed run
  refine ⟨?_, ?_, fun bs u within fired rest => run_started fired within rest⟩
  · rw [← same, ← governed.permits]
    omega
  · intro r member task inside
    exact List.all_eq_true.mp (ready.records_sound run r member).joined task inside

end Runs

/-- Every run keeps to the limit, drains its tasks and takes up no job behind the token; and it
dispatches no URL behind it just where the token never fires between a test and a spawn. -/
theorem punctual_iff_fires_outside {s t : BatchSystem ε} {as : List (BatchAction ε)}
    (ready : Ready s) (run : execute batchStep s as = some t) :
    Drained s t ∧ (Along batchStep FiresOutside s as → Punctual t) ∧
      (t.inWindow = false → (Punctual t ↔ Along batchStep FiresOutside s as)) := by
  have onTime := ready.onTime_iff run
  refine ⟨ready.drained run, fun along => (onTime.mpr along).1, fun behind => ?_⟩
  exact (and_iff_left fun _ => behind).symm.trans onTime

/-- The token fires while the first of two URLs is crawled, and the loop waits for its permit. -/
def firedWaiting : List (BatchAction Unit) :=
  [.processAll false, .turn, .test, .acquire, .spawn, .test, .fire,
    .finish 0 (.crawled (.ok ⟨0, []⟩)), .acquire, .spawn]

theorem sample_punctual_iff : ∃ t,
    execute batchStep (sampleBatch ["https://a.example/"]) samplePass = some t ∧
      Drained (sampleBatch ["https://a.example/"]) t ∧
      (Along batchStep FiresOutside (sampleBatch ["https://a.example/"]) samplePass → Punctual t) ∧
      (t.inWindow = false → (Punctual t ↔
        Along batchStep FiresOutside (sampleBatch ["https://a.example/"]) samplePass)) := by
  have run : execute batchStep (sampleBatch ["https://a.example/"]) samplePass = some _ := rfl
  exact ⟨_, run, punctual_iff_fires_outside (sampleBatch_ready _) run⟩

theorem second_url_behind_token : ∃ t,
    execute batchStep (sampleBatch ["https://a.example/", "https://b.example/"]) firedWaiting =
      some t ∧ ¬ Punctual t := by
  refine ⟨_, rfl, fun punctual => ?_⟩
  cases punctual _ (List.mem_cons_of_mem _ List.mem_cons_self)

end Webfang.Batch
