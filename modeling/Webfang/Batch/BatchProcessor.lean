import Webfang.Lib.Execution
import Webfang.Lib.Parties

/-!
# Batch processing

`application/batch`: a call of `process_batch_cancellable` spawns a task for each URL of a job, as
permits of a semaphore become free, until its cancellation token is seen fired, and joins them all;
`process_all_cancellable` does so for one queued job behind another.  The counters of a job are
shared by its clones.  How the crawl of a URL ends is an argument of the step that ends its task.
-/

namespace Webfang

namespace Batch

/-! ## Progress -/

@[ext]
structure BatchProgress where
  total : Nat
  completed : Nat
  failed : Nat
  inProgress : Nat
  deriving DecidableEq, Repr

def BatchProgress.new (total : Nat) : BatchProgress := ⟨total, 0, 0, 0⟩

def BatchProgress.startOne (p : BatchProgress) : BatchProgress :=
  { p with inProgress := p.inProgress + 1 }

def BatchProgress.completeOne (p : BatchProgress) : BatchProgress :=
  { p with inProgress := p.inProgress - 1, completed := p.completed + 1 }

def BatchProgress.failOne (p : BatchProgress) : BatchProgress :=
  { p with inProgress := p.inProgress - 1, failed := p.failed + 1 }

/-- `progress` is the place of the counters that the job shares with its clones. -/
structure BatchJob where
  id : String
  urls : List String
  progress : Nat
  deriving DecidableEq, Repr

/-! ## One URL -/

inductive CrawlErrorCategory
  | waf
  | http
  | timeout
  | network
  | rateLimit
  | extraction
  | internal
  | panic
  deriving DecidableEq, Repr

inductive CrawlError (ε : Type)
  | internal (message : String)
  | timeout
  | connection (message : String)
  | other (e : ε)
  deriving DecidableEq, Repr

/-- `errorBreakdown` is a map. -/
structure CrawlResult where
  errors : Nat
  errorBreakdown : List (CrawlErrorCategory × Nat)
  deriving DecidableEq, Repr

def CrawlResult.count (result : CrawlResult) (category : CrawlErrorCategory) : Nat :=
  (result.errorBreakdown.lookup category).getD 0

/-- `process_single_url`, of what building the configuration and crawling come to. -/
def processSingleUrl {ε : Type} (crawl : Except (CrawlError ε) CrawlResult) :
    Except (CrawlError ε) CrawlResult :=
  crawl.bind fun result =>
    if result.errors = 0 then .ok result
    else if result.errorBreakdown.isEmpty ||
        [CrawlErrorCategory.internal, .extraction, .panic].any fun c => 0 < result.count c then
      .error (.internal ("crawl completed with " ++ result.errors.repr ++ " error(s)"))
    else if 0 < result.count .timeout then .error .timeout
    else .error (.connection ("crawl completed with " ++ result.errors.repr ++ " transient error(s)"))

/-- A crawl that fails, or has any errors. -/
def crawlFailed {ε : Type} : Except (CrawlError ε) CrawlResult → Bool
  | .error _ => true
  | .ok result => result.errors ≠ 0

inductive ScraperError (ε : Type)
  | internal (message : String)
  | crawl (e : CrawlError ε)
  deriving DecidableEq, Repr

/-- `ScraperError::from` -/
def ScraperError.ofCrawlError {ε : Type} : CrawlError ε → ScraperError ε
  | .internal message => .internal message
  | e => .crawl e

inductive TaskEnd (ε : Type)
  | crawled (crawl : Except (CrawlError ε) CrawlResult)
  | panicked (message : String)

/-- What is pushed to `errors` when a task is joined. -/
def TaskEnd.error {ε : Type} (url : String) : TaskEnd ε → Option (String × ScraperError ε)
  | .crawled crawl =>
    match processSingleUrl crawl with
    | .ok _ => none
    | .error e => some (url, .ofCrawlError e)
  | .panicked message => some ("unknown", .internal ("task-panic: " ++ message))

/-! ## Calls -/

/-- `late` tells whether the token had fired when the task was spawned. -/
structure BatchTask (ε : Type) where
  url : String
  ended : Option (TaskEnd ε)
  joined : Bool
  late : Bool

/-- The loop tests the token, waits for a permit for a URL, has it, or is behind. -/
inductive LoopStage
  | testing
  | waiting (url : String)
  | granted (url : String)
  | joining
  deriving DecidableEq, Repr

/-- A call of `process_batch_cancellable` under way; `before` are the counters that it found. -/
structure BatchCall (ε : Type) where
  job : BatchJob
  rest : List String
  stage : LoopStage
  tasks : List (BatchTask ε)
  errors : List (String × ScraperError ε)
  cancelled : Bool
  before : BatchProgress

structure BatchResult (ε : Type) where
  jobId : String
  total : Nat
  succeeded : Nat
  failed : Nat
  errors : List (String × ScraperError ε)

inductive BatchError
  | emptyBatch
  deriving DecidableEq, Repr

/-- A call that has returned, with the counters before and behind it and the token behind it. -/
structure CallRecord (ε : Type) where
  job : BatchJob
  before : BatchProgress
  after : BatchProgress
  tasks : List (BatchTask ε)
  fired : Bool
  result : BatchResult ε

/-- The processor, the queue of the manager and other jobs, and the call under way: `pending` are
the jobs that it has still to take up, `results` those of this call. -/
structure BatchSystem (ε : Type) where
  maxConcurrentJobs : Nat
  permits : Nat
  counters : List BatchProgress
  queued : List BatchJob
  others : List BatchJob
  fired : Bool
  pending : Option (List BatchJob)
  call : Option (BatchCall ε)
  results : List (Except BatchError (BatchResult ε))
  records : List (CallRecord ε)

inductive BatchAction (ε : Type)
  /-- `process_batch_cancellable` with a clone of a job, and a token that may have fired. -/
  | processBatch (job : BatchJob) (fired : Bool)
  | processAll (fired : Bool)
  /-- The token of the call fires. -/
  | fire
  /-- `process_all_cancellable` tests the token and takes up the next job, or returns. -/
  | turn
  /-- The loop takes up the next URL and tests the token, or ends. -/
  | test
  | acquire
  | spawn
  /-- A task ends and drops its permit. -/
  | finish (i : Nat) (ended : TaskEnd ε)
  /-- `join_next` returns a task that has ended. -/
  | join (i : Nat)
  /-- All tasks are joined. -/
  | conclude

section Steps

variable {ε : Type}

def BatchSystem.progressOf (s : BatchSystem ε) (job : BatchJob) : BatchProgress :=
  s.counters[job.progress]?.getD (.new 0)

/-- `job.start`, behind the test for an empty batch. -/
def BatchSystem.start (s : BatchSystem ε) (job : BatchJob) : BatchSystem ε :=
  if job.urls = [] then { s with results := s.results ++ [.error .emptyBatch] }
  else { s with call := some ⟨job, job.urls, .testing, [], [], false, s.progressOf job⟩ }

def BatchCall.test (call : BatchCall ε) (fired : Bool) : BatchCall ε :=
  match call.rest with
  | [] => { call with stage := .joining }
  | url :: rest =>
    if fired then { call with stage := .joining, cancelled := true }
    else { call with stage := .waiting url, rest := rest }

/-- The counters when a task is joined. -/
def TaskEnd.count (ended : TaskEnd ε) (url : String) (p : BatchProgress) : BatchProgress :=
  if (ended.error url).isSome then p.failOne else p.completeOne

def BatchCall.result (call : BatchCall ε) (p : BatchProgress) : BatchResult ε :=
  ⟨call.job.id, p.total, p.completed, p.failed, call.errors⟩

def callStep (s : BatchSystem ε) (call : BatchCall ε) : BatchAction ε → Option (BatchSystem ε)
  | .test =>
    match call.stage with
    | .testing => some { s with call := some (call.test s.fired) }
    | _ => none
  | .acquire =>
    match call.stage with
    | .waiting url =>
      if 0 < s.permits then some { s with
        permits := s.permits - 1
        call := some { call with stage := .granted url } }
      else none
    | _ => none
  | .spawn =>
    match call.stage with
    | .granted url => some { s with
        counters := s.counters.modify call.job.progress BatchProgress.startOne
        call := some { call with
          stage := .testing
          tasks := call.tasks ++ [⟨url, none, false, s.fired⟩] } }
    | _ => none
  | .finish i ended =>
    call.tasks[i]?.bind fun task =>
      if task.ended.isSome then none
      else some { s with
        permits := s.permits + 1
        call := some { call with tasks := call.tasks.set i { task with ended := some ended } } }
  | .join i =>
    if call.stage = .joining then
      call.tasks[i]?.bind fun task =>
        if task.joined then none
        else task.ended.map fun ended => { s with
          counters := s.counters.modify call.job.progress (ended.count task.url)
          call := some { call with
            tasks := call.tasks.set i { task with joined := true }
            errors := call.errors ++ (ended.error task.url).toList } }
    else none
  | .conclude =>
    if call.stage = .joining ∧ call.tasks.all (·.joined) then
      let p := s.progressOf call.job
      some { s with
        call := none
        results := s.results ++ [.ok (call.result p)]
        records := s.records ++ [⟨call.job, call.before, p, call.tasks, s.fired, call.result p⟩] }
    else none
  | _ => none

def batchStep (s : BatchSystem ε) (a : BatchAction ε) : Option (BatchSystem ε) :=
  match a with
  | .fire => some { s with fired := true }
  | .processBatch job fired =>
    if s.pending = none ∧ s.call.isNone ∧ job ∈ s.queued ++ s.others then
      some ({ s with pending := some [], fired := fired, results := [] }.start job)
    else none
  | .processAll fired =>
    if s.pending = none ∧ s.call.isNone then
      some { s with pending := some s.queued, fired := fired, results := [] }
    else none
  | .turn =>
    if s.call.isNone then
      s.pending.map fun jobs =>
        match jobs with
        | [] => { s with pending := none }
        | job :: jobs =>
          if s.fired then { s with pending := none }
          else { s with pending := some jobs }.start job
    else none
  | a => s.call.bind fun call => callStep s call a

/-! ## What a step does -/

inductive CallMove (s : BatchSystem ε) (call : BatchCall ε) : BatchAction ε → BatchSystem ε → Prop
  | test (stage : call.stage = .testing) :
      CallMove s call .test { s with call := some (call.test s.fired) }
  | acquire {url : String} (stage : call.stage = .waiting url) (free : 0 < s.permits) :
      CallMove s call .acquire { s with
        permits := s.permits - 1
        call := some { call with stage := .granted url } }
  | spawn {url : String} (stage : call.stage = .granted url) :
      CallMove s call .spawn { s with
        counters := s.counters.modify call.job.progress BatchProgress.startOne
        call := some { call with
          stage := .testing
          tasks := call.tasks ++ [⟨url, none, false, s.fired⟩] } }
  | finish {i : Nat} {ended : TaskEnd ε} {task : BatchTask ε} (found : call.tasks[i]? = some task)
      (running : task.ended.isSome = false) :
      CallMove s call (.finish i ended) { s with
        permits := s.permits + 1
        call := some { call with tasks := call.tasks.set i { task with ended := some ended } } }
  | join {i : Nat} {task : BatchTask ε} {ended : TaskEnd ε} (stage : call.stage = .joining)
      (found : call.tasks[i]? = some task) (still : task.joined = false)
      (done : task.ended = some ended) :
      CallMove s call (.join i) { s with
        counters := s.counters.modify call.job.progress (ended.count task.url)
        call := some { call with
          tasks := call.tasks.set i { task with joined := true }
          errors := call.errors ++ (ended.error task.url).toList } }
  | conclude (stage : call.stage = .joining) (all : call.tasks.all (·.joined) = true) :
      CallMove s call .conclude { s with
        call := none
        results := s.results ++ [.ok (call.result (s.progressOf call.job))]
        records := s.records ++ [⟨call.job, call.before, s.progressOf call.job, call.tasks, s.fired,
          call.result (s.progressOf call.job)⟩] }

theorem callStep_move {s s' : BatchSystem ε} {call : BatchCall ε} {a : BatchAction ε}
    (step : callStep s call a = some s') : CallMove s call a s' := by
  cases a with
  | processBatch job fired => cases step
  | processAll fired => cases step
  | fire => cases step
  | turn => cases step
  | test =>
      rw [callStep] at step
      split at step
      · rename_i stage
        cases step
        exact .test stage
      · cases step
  | acquire =>
      rw [callStep] at step
      split at step
      · rename_i url stage
        split at step
        · rename_i free
          cases step
          exact .acquire stage free
        · cases step
      · cases step
  | spawn =>
      rw [callStep] at step
      split at step
      · rename_i url stage
        cases step
        exact .spawn stage
      · cases step
  | finish i ended =>
      obtain ⟨task, found, step⟩ := Option.bind_eq_some_iff.mp step
      split at step
      · cases step
      · rename_i running
        cases step
        exact .finish found (Bool.eq_false_iff.mpr running)
  | join i =>
      rw [callStep] at step
      split at step
      · rename_i stage
        obtain ⟨task, found, step⟩ := Option.bind_eq_some_iff.mp step
        split at step
        · cases step
        · rename_i still
          obtain ⟨ended, done, moved⟩ := Option.map_eq_some_iff.mp step
          cases moved
          exact .join stage found (Bool.eq_false_iff.mpr still) done
      · cases step
  | conclude =>
      rw [callStep] at step
      split at step
      · rename_i behind
        cases step
        exact .conclude behind.1 behind.2
      · cases step

inductive BatchMove (s : BatchSystem ε) : BatchAction ε → BatchSystem ε → Prop
  | fire : BatchMove s .fire { s with fired := true }
  | processBatch {job : BatchJob} {fired : Bool} (free : s.pending = none) (idle : s.call = none)
      (known : job ∈ s.queued ++ s.others) :
      BatchMove s (.processBatch job fired)
        ({ s with pending := some [], fired := fired, results := [] }.start job)
  | processAll {fired : Bool} (free : s.pending = none) (idle : s.call = none) :
      BatchMove s (.processAll fired)
        { s with pending := some s.queued, fired := fired, results := [] }
  | returned {jobs : List BatchJob} (idle : s.call = none) (under : s.pending = some jobs)
      (stop : jobs = [] ∨ s.fired = true) : BatchMove s .turn { s with pending := none }
  | taken {job : BatchJob} {jobs : List BatchJob} (idle : s.call = none)
      (under : s.pending = some (job :: jobs)) (unfired : s.fired = false) :
      BatchMove s .turn ({ s with pending := some jobs }.start job)
  | inside {call : BatchCall ε} {a : BatchAction ε} {s' : BatchSystem ε}
      (under : s.call = some call) (move : CallMove s call a s') : BatchMove s a s'

theorem batchStep_move {s s' : BatchSystem ε} {a : BatchAction ε}
    (step : batchStep s a = some s') : BatchMove s a s' := by
  have called (step : (s.call.bind fun call => callStep s call a) = some s') :
      BatchMove s a s' := by
    obtain ⟨call, under, step⟩ := Option.bind_eq_some_iff.mp step
    exact .inside under (callStep_move step)
  cases a with
  | fire =>
      cases step
      exact .fire
  | processBatch job fired =>
      rw [batchStep] at step
      split at step
      · rename_i free
        cases step
        exact .processBatch free.1 (Option.isNone_iff_eq_none.mp free.2.1) free.2.2
      · cases step
  | processAll fired =>
      rw [batchStep] at step
      split at step
      · rename_i free
        cases step
        exact .processAll free.1 (Option.isNone_iff_eq_none.mp free.2)
      · cases step
  | turn =>
      rw [batchStep] at step
      split at step
      · rename_i idle
        rw [Option.isNone_iff_eq_none] at idle
        obtain ⟨jobs, under, moved⟩ := Option.map_eq_some_iff.mp step
        split at moved
        · cases moved
          exact .returned idle under (.inl rfl)
        · split at moved
          · rename_i fired
            cases moved
            exact .returned idle under (.inr fired)
          · rename_i unfired
            cases moved
            exact .taken idle under (Bool.eq_false_iff.mpr unfired)
      · cases step
  | test => exact called step
  | acquire => exact called step
  | spawn => exact called step
  | finish i ended => exact called step
  | join i => exact called step
  | conclude => exact called step

end Steps

end Batch

end Webfang
