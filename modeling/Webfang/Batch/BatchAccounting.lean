import Webfang.Batch.BatchProcessor

/-!
# Accounting of a batch

A call adds what its joined tasks come to, to the counters of its job.  These are shared by all
clones of the job and are never set back, so the result of a call accounts for its own tasks just
when no earlier call has counted any.
-/

namespace Webfang.Batch

open StepSystem Parties

variable {ε : Type}

/-! ## Tasks -/

theorem crawlFailed_iff (crawl : Except (CrawlError ε) CrawlResult) :
    crawlFailed crawl = true ↔ ∃ e, processSingleUrl crawl = .error e := by
  cases crawl with
  | error e => exact iff_of_true rfl ⟨e, rfl⟩
  | ok result =>
      simp only [processSingleUrl, Except.bind, crawlFailed, decide_eq_true_eq]
      split
      · rename_i clean
        simp [clean]
      · rename_i dirty
        refine iff_of_true dirty ?_
        split
        · exact ⟨_, rfl⟩
        · split
          · exact ⟨_, rfl⟩
          · exact ⟨_, rfl⟩

/-- Under which URL the end of a task is to be listed: a failed crawl under its own. -/
def BatchTask.listing (task : BatchTask ε) : Option String :=
  task.ended.bind fun
    | .crawled crawl => if crawlFailed crawl then some task.url else none
    | .panicked _ => some "unknown"

/-- What a task has put into `errors`. -/
def BatchTask.error (task : BatchTask ε) : Option (String × ScraperError ε) :=
  if task.joined then task.ended.bind (·.error task.url) else none

/-- How a task is counted. -/
def BatchTask.completedShare (task : BatchTask ε) : Nat :=
  if task.joined ∧ task.error.isNone then 1 else 0

def BatchTask.failedShare (task : BatchTask ε) : Nat := if task.error.isSome then 1 else 0

def BatchTask.openShare (task : BatchTask ε) : Nat := if task.joined then 0 else 1

theorem BatchTask.shares (task : BatchTask ε) :
    task.completedShare + task.failedShare + task.openShare = 1 := by
  rw [completedShare, failedShare, openShare, error]
  cases task.joined with
  | false => rfl
  | true => cases task.ended.bind (·.error task.url) <;> rfl

/-- The three sums of a list of tasks. -/
def completedOf (tasks : List (BatchTask ε)) : Nat := (tasks.map (·.completedShare)).sum

def failedOf (tasks : List (BatchTask ε)) : Nat := (tasks.map (·.failedShare)).sum

def openOf (tasks : List (BatchTask ε)) : Nat := (tasks.map (·.openShare)).sum

theorem sums_eq_length (tasks : List (BatchTask ε)) :
    completedOf tasks + failedOf tasks + openOf tasks = tasks.length := by
  induction tasks with
  | nil => rfl
  | cons task tasks ih =>
      have here := task.shares
      simp only [completedOf, failedOf, openOf, List.map_cons, List.sum_cons,
        List.length_cons] at ih ⊢
      omega

theorem length_filterMap_error (tasks : List (BatchTask ε)) :
    (tasks.filterMap BatchTask.error).length = failedOf tasks := by
  induction tasks with
  | nil => rfl
  | cons task tasks ih =>
      rw [failedOf] at ih ⊢
      rw [List.map_cons, List.sum_cons, ← ih, List.filterMap_cons, BatchTask.failedShare]
      cases task.error with
      | none => simp
      | some error => simp [Nat.add_comm]

theorem openOf_eq_zero {tasks : List (BatchTask ε)} (all : tasks.all (·.joined) = true) :
    openOf tasks = 0 := by
  rw [openOf, List.sum_eq_zero]
  intro share member
  obtain ⟨task, inside, rfl⟩ := List.mem_map.mp member
  rw [BatchTask.openShare, if_pos (List.all_eq_true.mp all task inside)]

/-- A joined task is listed as it is to be. -/
theorem map_fst_error {task : BatchTask ε} (joined : task.joined = true) :
    task.error.map Prod.fst = task.listing := by
  rw [BatchTask.error, if_pos joined, BatchTask.listing]
  cases task.ended with
  | none => rfl
  | some ended =>
      cases ended with
      | panicked message => rfl
      | crawled crawl =>
          rw [Option.bind_some, Option.bind_some, TaskEnd.error]
          cases result : processSingleUrl crawl with
          | ok crawled =>
              have clean : ¬ crawlFailed crawl = true := by
                rw [crawlFailed_iff, result]
                intro given
                rcases given with ⟨e, same⟩
                cases same
              simp [clean]
          | error e =>
              have failed : crawlFailed crawl = true := (crawlFailed_iff crawl).mpr ⟨e, result⟩
              simp [failed]

/-! ## A call under way -/

/-- The URL that the loop has taken up and not spawned a task for. -/
def LoopStage.taken : LoopStage → List String
  | .testing => []
  | .waiting url => [url]
  | .granted url => [url]
  | .joining => []

/-- The counters of a job with what some tasks have added. -/
def BatchProgress.plus (before : BatchProgress) (tasks : List (BatchTask ε)) : BatchProgress where
  total := before.total
  completed := before.completed + completedOf tasks
  failed := before.failed + failedOf tasks
  inProgress := openOf tasks

/-- What holds of the call: the counters are those that it found and what its tasks have added. -/
structure CallSound (s : BatchSystem ε) (call : BatchCall ε) : Prop where
  known : call.job ∈ s.queued ++ s.others
  counters : s.counters[call.job.progress]? = some (call.before.plus call.tasks)
  total : call.before.total = call.job.urls.length
  errors : call.errors.Perm (call.tasks.filterMap BatchTask.error)
  urls : call.tasks.map (·.url) ++ call.stage.taken ++ call.rest = call.job.urls
  ended : ∀ task ∈ call.tasks, task.joined = true → task.ended.isSome
  joining : call.stage = .joining → s.fired = true ∨ call.rest = []

/-- What holds of a call that has returned. -/
structure RecordSound (r : CallRecord ε) : Prop where
  joined : r.tasks.all (·.joined) = true
  counters : r.after = r.before.plus r.tasks
  result : r.result = ⟨r.job.id, r.after.total, r.after.completed, r.after.failed, r.result.errors⟩
  total : r.before.total = r.job.urls.length
  errors : r.result.errors.Perm (r.tasks.filterMap BatchTask.error)
  urls : ∃ rest, r.tasks.map (·.url) ++ rest = r.job.urls ∧ (r.fired = true ∨ rest = [])

/-- The counters of a job fit it, and none of its tasks is in progress but those of the call. -/
def Fits (s : BatchSystem ε) (job : BatchJob) : Prop :=
  ∃ p, s.counters[job.progress]? = some p ∧ p.total = job.urls.length ∧
    ((∀ call, s.call = some call → call.job.progress ≠ job.progress) → p.inProgress = 0)

structure Sound (s : BatchSystem ε) : Prop where
  fits : ∀ job ∈ s.queued ++ s.others, Fits s job
  pending : ∀ jobs, s.pending = some jobs → ∀ job ∈ jobs, job ∈ s.queued ++ s.others
  call : ∀ call, s.call = some call → CallSound s call
  records : ∀ r ∈ s.records, RecordSound r

/-- Between two calls, with jobs whose counters fit them. -/
structure Ready (s : BatchSystem ε) : Prop where
  fits : ∀ job ∈ s.queued ++ s.others, ∃ p, s.counters[job.progress]? = some p ∧
    p.total = job.urls.length ∧ p.inProgress = 0
  pending : s.pending = none
  call : s.call = none
  records : s.records = []
  permits : s.permits = s.maxConcurrentJobs

theorem Ready.sound {s : BatchSystem ε} (ready : Ready s) : Sound s where
  fits := by
    intro job known
    obtain ⟨p, found, total, idle⟩ := ready.fits job known
    exact ⟨p, found, total, fun _ => idle⟩
  pending := by
    intro jobs under
    rw [ready.pending] at under
    cases under
  call := by
    intro call under
    rw [ready.call] at under
    cases under
  records := by
    intro r member
    rw [ready.records] at member
    exact absurd member List.not_mem_nil

/-! ## The steps of a call -/

section Call

variable {s s' : BatchSystem ε} {call : BatchCall ε}

/-- The counters of other jobs are left alone, and the total of every one is. -/
theorem fits_modify (f : BatchProgress → BatchProgress) (total : ∀ p, (f p).total = p.total)
    {call' : BatchCall ε} (under : s.call = some call)
    (same : call'.job = call.job) (counters : s'.counters = s.counters.modify call.job.progress f)
    (under' : s'.call = some call') {job : BatchJob} (fits : Fits s job) : Fits s' job := by
  obtain ⟨p, found, whole, idle⟩ := fits
  by_cases here : call.job.progress = job.progress
  · refine ⟨f p, ?_, (total p).trans whole, fun other => ?_⟩
    · rw [counters, here, List.getElem?_modify_eq, found]
      rfl
    · exact absurd (same ▸ here) (other call' under')
  · refine ⟨p, ?_, whole, fun _ => idle fun c there => ?_⟩
    · rw [counters, List.getElem?_modify_ne _ _ here, found]
    · cases under.symm.trans there
      exact here

/-- What a step of the call has to leave as it is. -/
structure Keeps (s s' : BatchSystem ε) : Prop where
  queued : s'.queued = s.queued
  others : s'.others = s.others
  pending : s'.pending = s.pending
  fired : s'.fired = s.fired
  records : s'.records = s.records

theorem Sound.moved (sound : Sound s) (keeps : Keeps s s') (f : BatchProgress → BatchProgress)
    (total : ∀ p, (f p).total = p.total) {call' : BatchCall ε} (under : s.call = some call)
    (under' : s'.call = some call') (inside : CallSound s' call') (same : call'.job = call.job)
    (counters : s'.counters = s.counters.modify call.job.progress f) : Sound s' where
  fits := by
    rw [keeps.queued, keeps.others]
    exact fun job known => fits_modify f total under same counters under' (sound.fits job known)
  pending := by
    rw [keeps.queued, keeps.others, keeps.pending]
    exact sound.pending
  call := by
    intro other there
    cases under'.symm.trans there
    exact inside
  records := by
    rw [keeps.records]
    exact sound.records

/-- A step that counts nothing. -/
theorem Sound.uncounted (sound : Sound s) (keeps : Keeps s s') {call' : BatchCall ε}
    (under : s.call = some call) (under' : s'.call = some call') (inside : CallSound s' call')
    (same : call'.job = call.job) (counters : s'.counters = s.counters) : Sound s' :=
  sound.moved keeps id (fun _ => rfl) under under' inside same
    (counters.trans (List.modify_id ..).symm)

theorem CallSound.test (sound : CallSound s call) (stage : call.stage = .testing) :
    CallSound { s with call := some (call.test s.fired) } (call.test s.fired) := by
  obtain ⟨known, counters, total, errors, urls, ended, joining⟩ := sound
  rw [stage, LoopStage.taken, List.append_nil] at urls
  rw [BatchCall.test]
  split
  · rename_i none
    refine ⟨known, counters, total, errors, ?_, ended, fun _ => .inr none⟩
    rw [LoopStage.taken, List.append_nil]
    exact urls
  · rename_i url rest more
    split
    · rename_i fired
      refine ⟨known, counters, total, errors, ?_, ended, fun _ => .inl fired⟩
      rw [LoopStage.taken, List.append_nil]
      exact urls
    · refine ⟨known, counters, total, errors, ?_, ended, ?_⟩
      · rw [LoopStage.taken, List.append_assoc, List.singleton_append, ← more]
        exact urls
      · intro stage
        cases stage

theorem CallSound.acquire (sound : CallSound s call) {url : String}
    (stage : call.stage = .waiting url) (permits : Nat) :
    CallSound { s with permits := permits, call := some { call with stage := .granted url } }
      { call with stage := .granted url } := by
  obtain ⟨known, counters, total, errors, urls, ended, joining⟩ := sound
  rw [stage] at urls
  refine ⟨known, counters, total, errors, urls, ended, ?_⟩
  intro stage
  cases stage

theorem plus_concat (before : BatchProgress) (tasks : List (BatchTask ε)) (url : String)
    (late : Bool) : before.plus (tasks ++ [⟨url, none, false, late⟩]) =
      (before.plus tasks).startOne := by
  rw [BatchProgress.plus, completedOf, failedOf, openOf, sum_concat, sum_concat, sum_concat]
  rfl

theorem CallSound.spawn (sound : CallSound s call) {url : String}
    (stage : call.stage = .granted url) :
    CallSound { s with
        counters := s.counters.modify call.job.progress BatchProgress.startOne
        call := some { call with
          stage := .testing
          tasks := call.tasks ++ [⟨url, none, false, s.fired⟩] } }
      { call with stage := .testing, tasks := call.tasks ++ [⟨url, none, false, s.fired⟩] } := by
  obtain ⟨known, counters, total, errors, urls, ended, joining⟩ := sound
  rw [stage, LoopStage.taken] at urls
  refine ⟨known, ?_, total, ?_, ?_, ?_, ?_⟩
  · rw [List.getElem?_modify_eq, counters, plus_concat]
    rfl
  · rw [List.filterMap_append]
    exact errors.trans (.of_eq (List.append_nil _).symm)
  · rw [List.map_append, LoopStage.taken, List.append_nil]
    exact urls
  · refine forall_mem_concat ended ?_
    intro joined
    cases joined
  · intro stage
    cases stage

/-- A task that moves and is counted as it was. -/
theorem plus_set (before : BatchProgress) {tasks : List (BatchTask ε)} {i : Nat}
    {task moved : BatchTask ε} (found : tasks[i]? = some task)
    (completed : moved.completedShare = task.completedShare)
    (failed : moved.failedShare = task.failedShare) (open_ : moved.openShare = task.openShare) :
    before.plus (tasks.set i moved) = before.plus tasks := by
  have sums := sum_set BatchTask.completedShare found moved
  have sums' := sum_set BatchTask.failedShare found moved
  have sums'' := sum_set BatchTask.openShare found moved
  rw [completed] at sums
  rw [failed] at sums'
  rw [open_] at sums''
  rw [BatchProgress.plus, BatchProgress.plus, completedOf, failedOf, openOf,
    Nat.add_right_cancel sums, Nat.add_right_cancel sums', Nat.add_right_cancel sums'']
  rfl

/-- An open task lists nothing, whether it has ended or not. -/
theorem BatchTask.error_of_open {task : BatchTask ε} (still : task.joined = false) :
    task.error = none := by
  rw [error, still]
  rfl

/-- A task that is joined has been open, and is counted as its end tells. -/
theorem plus_join (before : BatchProgress) {tasks : List (BatchTask ε)} {i : Nat}
    {task : BatchTask ε} (found : tasks[i]? = some task) (still : task.joined = false)
    {ended : TaskEnd ε} (done : task.ended = some ended) :
    before.plus (tasks.set i { task with joined := true }) =
      ended.count task.url (before.plus tasks) := by
  have completed := sum_set BatchTask.completedShare found { task with joined := true }
  have failed := sum_set BatchTask.failedShare found { task with joined := true }
  have opened := sum_set BatchTask.openShare found { task with joined := true }
  have listed : ({ task with joined := true } : BatchTask ε).error = ended.error task.url := by
    rw [BatchTask.error, if_pos rfl, done, Option.bind_some]
  simp only [BatchTask.completedShare, BatchTask.failedShare, BatchTask.openShare,
    BatchTask.error_of_open still, listed, still] at completed failed opened
  rw [TaskEnd.count]
  cases out : ended.error task.url with
  | none =>
      simp only [out, Option.isNone_none, Option.isSome_none, Bool.false_eq_true, false_and,
        and_self, if_true, if_false] at completed failed opened ⊢
      ext
      · rfl
      · exact congrArg (before.completed + ·) completed
      · exact congrArg (before.failed + ·) failed
      · exact Nat.eq_sub_of_add_eq opened
  | some error =>
      simp only [out, Option.isNone_some, Option.isSome_some, Option.isNone_none,
        Option.isSome_none, Bool.false_eq_true, and_false, and_true, if_true, if_false]
        at completed failed opened ⊢
      ext
      · rfl
      · exact congrArg (before.completed + ·) completed
      · exact congrArg (before.failed + ·) failed
      · exact Nat.eq_sub_of_add_eq opened

theorem CallSound.finish (sound : CallSound s call) {i : Nat} {task : BatchTask ε}
    (found : call.tasks[i]? = some task) (running : task.ended.isSome = false) (ended : TaskEnd ε)
    (permits : Nat) :
    CallSound { s with
        permits := permits
        call := some { call with tasks := call.tasks.set i { task with ended := some ended } } }
      { call with tasks := call.tasks.set i { task with ended := some ended } } := by
  obtain ⟨known, counters, total, errors, urls, ends, joining⟩ := sound
  have still : task.joined = false := by
    rw [← Bool.not_eq_true]
    intro joined
    rw [ends task (List.mem_of_getElem? found) joined] at running
    cases running
  have unlisted := BatchTask.error_of_open still
  have unlisted' : ({ task with ended := some ended } : BatchTask ε).error = none :=
    BatchTask.error_of_open still
  refine ⟨known, ?_, total, ?_, ?_, ?_, joining⟩
  · rw [counters, plus_set call.before found]
    · rw [BatchTask.completedShare, BatchTask.completedShare, unlisted, unlisted']
    · rw [BatchTask.failedShare, BatchTask.failedShare, unlisted, unlisted']
    · rfl
  · have listed := filterMap_set_perm BatchTask.error found { task with ended := some ended }
    rw [unlisted, unlisted', Option.toList_none, List.append_nil, List.append_nil] at listed
    exact errors.trans listed.symm
  · have same := map_set_same (·.url) found (rfl : ({ task with ended := some ended } : BatchTask ε).url = _)
    exact (congrArg (· ++ call.stage.taken ++ call.rest) same).trans urls
  · exact forall_mem_set ends fun _ => rfl

theorem CallSound.join (sound : CallSound s call) {i : Nat} {task : BatchTask ε}
    (found : call.tasks[i]? = some task) (still : task.joined = false)
    {ended : TaskEnd ε} (done : task.ended = some ended) :
    CallSound { s with
        counters := s.counters.modify call.job.progress (ended.count task.url)
        call := some { call with
          tasks := call.tasks.set i { task with joined := true }
          errors := call.errors ++ (ended.error task.url).toList } }
      { call with
        tasks := call.tasks.set i { task with joined := true }
        errors := call.errors ++ (ended.error task.url).toList } := by
  obtain ⟨known, counters, total, errors, urls, ends, joining⟩ := sound
  have listed : ({ task with joined := true } : BatchTask ε).error = ended.error task.url := by
    rw [BatchTask.error, if_pos rfl, done, Option.bind_some]
  refine ⟨known, ?_, total, ?_, ?_, ?_, joining⟩
  · rw [List.getElem?_modify_eq, counters, plus_join call.before found still done]
    rfl
  · have more := filterMap_set_perm BatchTask.error found { task with joined := true }
    rw [BatchTask.error_of_open still, listed, Option.toList_none, List.append_nil] at more
    exact (errors.append_right _).trans more.symm
  · have same := map_set_same (·.url) found (rfl : ({ task with joined := true } : BatchTask ε).url = _)
    exact (congrArg (· ++ call.stage.taken ++ call.rest) same).trans urls
  · exact forall_mem_set ends fun _ => Option.isSome_iff_exists.mpr ⟨ended, done⟩

/-- What a call records when it returns. -/
theorem CallSound.record (sound : CallSound s call) (stage : call.stage = .joining)
    (all : call.tasks.all (·.joined) = true) :
    RecordSound (⟨call.job, call.before, call.before.plus call.tasks, call.tasks, s.fired,
      call.result (call.before.plus call.tasks)⟩ : CallRecord ε) := by
  obtain ⟨known, counters, total, errors, urls, ends, joining⟩ := sound
  rw [stage, LoopStage.taken, List.append_nil] at urls
  exact ⟨all, rfl, rfl, total, errors, call.rest, urls, joining stage⟩

theorem BatchSystem.progressOf_eq {job : BatchJob} {p : BatchProgress}
    (found : s.counters[job.progress]? = some p) : s.progressOf job = p := by
  rw [progressOf, found]
  rfl

theorem Sound.conclude (sound : Sound s) (under : s.call = some call)
    (stage : call.stage = .joining) (all : call.tasks.all (·.joined) = true)
    (results : List (Except BatchError (BatchResult ε))) :
    Sound { s with
      call := none
      results := results
      records := s.records ++ [⟨call.job, call.before, s.progressOf call.job, call.tasks, s.fired,
        call.result (s.progressOf call.job)⟩] } where
  fits := by
    intro job known
    obtain ⟨p, found, whole, idle⟩ := sound.fits job known
    refine ⟨p, found, whole, fun _ => ?_⟩
    by_cases here : call.job.progress = job.progress
    · -- the tasks of the call that shares its counters are all joined
      have counted := (sound.call call under).counters
      rw [here, found] at counted
      rw [Option.some.inj counted]
      exact openOf_eq_zero all
    · refine idle fun other there => ?_
      cases under.symm.trans there
      exact here
  pending := sound.pending
  call := by
    intro other there
    cases there
  records := by
    have inside := sound.call call under
    rw [BatchSystem.progressOf_eq inside.counters]
    exact forall_mem_concat sound.records (inside.record stage all)

theorem Sound.inside (sound : Sound s) (under : s.call = some call) {a : BatchAction ε}
    (move : CallMove s call a s') : Sound s' := by
  have inside := sound.call call under
  cases move with
  | test stage =>
      have same : (call.test s.fired).job = call.job := by
        rw [BatchCall.test]
        split
        · rfl
        · split <;> rfl
      exact sound.uncounted ⟨rfl, rfl, rfl, rfl, rfl⟩ under rfl (inside.test stage) same rfl
  | acquire stage free =>
      exact sound.uncounted ⟨rfl, rfl, rfl, rfl, rfl⟩ under rfl (inside.acquire stage _) rfl rfl
  | spawn stage =>
      exact sound.moved ⟨rfl, rfl, rfl, rfl, rfl⟩ BatchProgress.startOne (fun _ => rfl) under rfl
        (inside.spawn stage) rfl rfl
  | finish found running =>
      exact sound.uncounted ⟨rfl, rfl, rfl, rfl, rfl⟩ under rfl (inside.finish found running _ _)
        rfl rfl
  | @join i task ended stage found still done =>
      have total (p : BatchProgress) : (ended.count task.url p).total = p.total := by
        rw [TaskEnd.count]
        split <;> rfl
      exact sound.moved ⟨rfl, rfl, rfl, rfl, rfl⟩ _ total under rfl (inside.join found still done)
        rfl rfl
  | conclude stage all => exact sound.conclude under stage all _

end Call

/-! ## Runs -/

section Runs

variable {s s' t : BatchSystem ε}

/-- Between two calls, a state that differs in nothing that the invariant reads but its turns. -/
theorem Sound.between (sound : Sound s) (idle : s.call = none) (counters : s'.counters = s.counters)
    (queued : s'.queued = s.queued) (others : s'.others = s.others)
    (records : s'.records = s.records) (idle' : s'.call = none)
    (turns : ∀ jobs, s'.pending = some jobs → ∀ job ∈ jobs, job ∈ s.queued ++ s.others) :
    Sound s' where
  fits := by
    rw [queued, others]
    intro job known
    obtain ⟨p, found, whole, still⟩ := sound.fits job known
    refine ⟨p, (congrArg (·[job.progress]?) counters).trans found, whole, fun _ => ?_⟩
    refine still fun call under => ?_
    rw [idle] at under
    cases under
  pending := by
    rw [queued, others]
    exact turns
  call := by
    intro call under
    rw [idle'] at under
    cases under
  records := by
    rw [records]
    exact sound.records

theorem Sound.start (sound : Sound s) (idle : s.call = none) {job : BatchJob}
    (known : job ∈ s.queued ++ s.others) : Sound (s.start job) := by
  rw [BatchSystem.start]
  split
  · exact sound.between idle rfl rfl rfl rfl idle sound.pending
  · obtain ⟨p, found, whole, still⟩ := sound.fits job known
    have none_open : p.inProgress = 0 := still fun call under => by
      rw [idle] at under
      cases under
    refine ⟨?_, sound.pending, ?_, sound.records⟩
    · intro other there
      obtain ⟨q, found', whole', still'⟩ := sound.fits other there
      refine ⟨q, found', whole', fun _ => still' fun call under => ?_⟩
      rw [idle] at under
      cases under
    · intro call under
      cases under
      rw [BatchSystem.progressOf_eq found]
      refine ⟨known, ?_, whole, .nil, rfl, ?_, ?_⟩
      · rw [found]
        congr 1
        ext
        · rfl
        · rfl
        · rfl
        · exact none_open
      · intro task member
        cases member
      · intro stage
        cases stage

theorem Sound.step (sound : Sound s) {a : BatchAction ε} (step : batchStep s a = some s') :
    Sound s' := by
  cases batchStep_move step with
  | fire =>
      refine ⟨sound.fits, sound.pending, ?_, sound.records⟩
      intro call under
      have inside := sound.call call under
      exact { inside with joining := fun _ => .inl rfl }
  | @processBatch job fired free idle known =>
      have called : Sound { s with pending := some [], fired := fired, results := [] } := by
        refine sound.between idle rfl rfl rfl rfl idle fun jobs under job member => ?_
        cases under
        cases member
      exact called.start idle known
  | processAll free idle =>
      refine sound.between idle rfl rfl rfl rfl idle fun jobs under job member => ?_
      cases under
      exact List.mem_append_left _ member
  | returned idle under stop =>
      refine sound.between idle rfl rfl rfl rfl idle fun jobs under => ?_
      cases under
  | @taken job jobs idle under unfired =>
      have known := sound.pending _ under
      have taken : Sound { s with pending := some jobs } := by
        refine sound.between idle rfl rfl rfl rfl idle fun rest same other member => ?_
        cases same
        exact known other (List.mem_cons_of_mem job member)
      exact taken.start idle (known job List.mem_cons_self)
  | inside under move => exact sound.inside under move

/-- What each call in a sequence of calls records. -/
theorem Ready.records_sound {as : List (BatchAction ε)} (ready : Ready s)
    (run : execute batchStep s as = some t) : ∀ r ∈ t.records, RecordSound r :=
  (execute_invariant (fun _ _ _ sound step => sound.step step) run ready.sound).records

end Runs

/-! ## The equations -/

/-- What the result of a call is to tell of it. -/
structure Accounted (r : CallRecord ε) : Prop where
  dispatched : r.result.succeeded + r.result.failed = r.tasks.length
  bounded : r.tasks.length ≤ r.result.total
  failed : r.result.failed = r.result.errors.length
  whole : r.fired = false → r.result.succeeded + r.result.failed = r.result.total
  listed : (r.result.errors.map Prod.fst).Perm (r.tasks.filterMap BatchTask.listing)
  idle : r.after.inProgress = 0

section Equations

variable {r : CallRecord ε}

theorem RecordSound.length_errors (sound : RecordSound r) :
    r.result.errors.length = failedOf r.tasks := by
  rw [sound.errors.length_eq, length_filterMap_error]

theorem RecordSound.counted (sound : RecordSound r) :
    completedOf r.tasks + failedOf r.tasks = r.tasks.length := by
  have sums := sums_eq_length r.tasks
  rwa [openOf_eq_zero sound.joined, Nat.add_zero] at sums

/-- The listed errors are those of the tasks that failed, whatever the counters were. -/
theorem RecordSound.listed (sound : RecordSound r) :
    (r.result.errors.map Prod.fst).Perm (r.tasks.filterMap BatchTask.listing) := by
  refine (sound.errors.map Prod.fst).trans (.of_eq ?_)
  rw [List.map_filterMap]
  refine List.filterMap_congr fun task member => ?_
  exact map_fst_error (List.all_eq_true.mp sound.joined task member)

theorem RecordSound.length_le (sound : RecordSound r) : r.tasks.length ≤ r.result.total := by
  obtain ⟨rest, urls, -⟩ := sound.urls
  have whole : r.result.total = r.job.urls.length := by
    rw [sound.result, sound.counters, BatchProgress.plus, sound.total]
  rw [whole, ← urls, List.length_append, List.length_map]
  exact Nat.le_add_right _ _

theorem RecordSound.length_eq (sound : RecordSound r) (unfired : r.fired = false) :
    r.tasks.length = r.result.total := by
  rcases sound.urls with ⟨rest, urls, fired | done⟩
  · rw [unfired] at fired
    cases fired
  · rw [done, List.append_nil] at urls
    rw [sound.result, sound.counters, BatchProgress.plus, sound.total, ← urls, List.length_map]

/-- The result counts the tasks of the call on top of what the counters were. -/
theorem RecordSound.succeeded (sound : RecordSound r) :
    r.result.succeeded = r.before.completed + completedOf r.tasks := by
  rw [sound.result, sound.counters]
  rfl

theorem RecordSound.failed (sound : RecordSound r) :
    r.result.failed = r.before.failed + failedOf r.tasks := by
  rw [sound.result, sound.counters]
  rfl

theorem RecordSound.accounted_iff (sound : RecordSound r) :
    Accounted r ↔ r.before.completed = 0 ∧ r.before.failed = 0 := by
  have counted := sound.counted
  refine ⟨fun accounted => ?_, fun fresh => ?_⟩
  · have sums := accounted.dispatched
    rw [sound.succeeded, sound.failed] at sums
    omega
  · have sums : r.result.succeeded + r.result.failed = r.tasks.length := by
      rw [sound.succeeded, sound.failed]
      omega
    refine ⟨sums, sound.length_le, ?_, ?_, sound.listed, ?_⟩
    · rw [sound.failed, fresh.2, Nat.zero_add, sound.length_errors]
    · intro unfired
      rw [sums, sound.length_eq unfired]
    · rw [sound.counters]
      exact openOf_eq_zero sound.joined

end Equations

/-- In every sequence of calls the result of one accounts for it just when the counters of its job
were at zero when it began. -/
theorem accounted_iff_fresh {s t : BatchSystem ε} {as : List (BatchAction ε)} (ready : Ready s)
    (run : execute batchStep s as = some t) : ∀ r ∈ t.records,
      (Accounted r ↔ r.before.completed = 0 ∧ r.before.failed = 0) :=
  fun r member => (ready.records_sound run r member).accounted_iff

/-- A processor with a concurrency limit of one, and a queue of one job. -/
def sampleBatch (urls : List String) : BatchSystem Unit where
  maxConcurrentJobs := 1
  permits := 1
  counters := [.new urls.length]
  queued := [⟨"batch-all", urls, 0⟩]
  others := []
  fired := false
  pending := none
  call := none
  results := []
  records := []

/-- `process_all` with one URL, the crawl of which has no errors. -/
def samplePass : List (BatchAction Unit) :=
  [.processAll false, .turn, .test, .acquire, .spawn, .test, .finish 0 (.crawled (.ok ⟨0, []⟩)),
    .join 0, .conclude, .turn]

theorem sampleBatch_ready (urls : List String) : Ready (sampleBatch urls) where
  fits := by
    intro job known
    rw [List.mem_singleton.mp known]
    exact ⟨.new urls.length, rfl, rfl, rfl⟩
  pending := rfl
  call := rfl
  records := rfl
  permits := rfl

theorem sample_accounted : ∃ t, execute batchStep (sampleBatch ["https://a.example/"]) samplePass =
    some t ∧ ∀ r ∈ t.records, (Accounted r ↔ r.before.completed = 0 ∧ r.before.failed = 0) := by
  have run : execute batchStep (sampleBatch ["https://a.example/"]) samplePass = some _ := rfl
  exact ⟨_, run, accounted_iff_fresh (sampleBatch_ready _) run⟩

/-- Of two passes over one queue the second tells of two URLs where one was dispatched. -/
theorem second_pass_not_accounted : ∃ t,
    execute batchStep (sampleBatch ["https://a.example/"]) (samplePass ++ samplePass) = some t ∧
      ∃ r ∈ t.records, r.tasks.length = 1 ∧ r.result.succeeded = 2 ∧ ¬ Accounted r := by
  refine ⟨_, rfl, _, List.mem_cons_of_mem _ List.mem_cons_self, rfl, rfl, fun accounted => ?_⟩
  cases accounted.dispatched

end Webfang.Batch
