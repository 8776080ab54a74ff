import Mathlib.Data.List.Induction
import Webfang.Lib.Parties
import Webfang.Network.PoolInvariants

/-!
# Sessions of crawl tasks

`run_crawl_task_inner` of `application/crawler/crawl_task.rs` with its calls to the session pool.
The tasks of a crawl share one pool; a task runs without a break from one `.await` to the next,
and at each of them the join set may abort it.
-/

namespace Webfang

namespace CrawlSession

open SessionPool StepSystem

/-- A call of a task to the pool, with the answer to an acquire. -/
inductive PoolCall
  | acquired (domain : List Char) (answer : Option Nat)
  | succeeded (domain : List Char) (sessionId : Nat)
  | failed (domain : List Char) (sessionId statusCode : Nat)
  deriving DecidableEq, Repr

/-- The `.await` that a task stands at. -/
inductive Stage
  | waiting
  | fetching (sessionId : Option Nat)
  | ingesting (sessionId : Option Nat)
  | pipeline
  | sending
  | linking
  | ended
  deriving DecidableEq, Repr

structure SessionTask where
  /-- `Url::parse` of the task's URL, with `host_str` -/
  parsedUrl : Option (Option (List Char))
  stage : Stage
  calls : List PoolCall
  deriving DecidableEq, Repr

def SessionTask.new (parsedUrl : Option (Option (List Char))) : SessionTask :=
  ⟨parsedUrl, .waiting, []⟩

/-- The page fetcher's answer. -/
inductive FetchAnswer
  /-- a page, with or without cookies -/
  | page (cookies : Bool)
  /-- an error; a WAF challenge bans the domain -/
  | error (wafChallenge : Bool)
  deriving DecidableEq, Repr

/-- What a task is resumed with. -/
inductive TaskMove
  | start
  | fetched (answer : FetchAnswer)
  | ingested
  | piped (continues : Bool)
  /-- a result that cannot be delivered is only logged -/
  | sent (delivered : Bool)
  | linked
  /-- the join set aborts the task, or it panics -/
  | abort
  deriving DecidableEq, Repr

def SessionTask.host (t : SessionTask) : Option (List Char) := t.parsedUrl.bind id

/-- The key under which `acquire_session` asks. -/
def SessionTask.domain (t : SessionTask) : List Char := t.host.getD []

section Tasks

variable {cfg : SessionPoolConfig} (anchor : Nat)

/-- A call's moment and what the map's iteration order is then. -/
structure Moment where
  elapsed : Nat
  rank : List Char → Nat

/-- `acquire_session`: `none` where no session is available. -/
def acquireSession (at_ : Moment) (pool : Option (Pool cfg)) (t : SessionTask) :
    Option (Option Nat) × SessionTask × Option (Pool cfg) :=
  match pool with
  | none => (some none, t, none)
  | some p =>
      let answer := (acquire cfg anchor at_.rank t.domain (p.clock + at_.elapsed) p.sessions).1
      (answer.map some, { t with calls := t.calls ++ [.acquired t.domain answer] },
        some (p.call anchor ⟨at_.elapsed, .acquire t.domain at_.rank⟩))

def reportSessionSuccess (at_ : Moment) (sessionId : Option Nat) (pool : Option (Pool cfg))
    (t : SessionTask) : SessionTask × Option (Pool cfg) :=
  match pool, sessionId, t.host with
  | some p, some id, some domain =>
      ({ t with calls := t.calls ++ [.succeeded domain id] },
        some (p.call anchor ⟨at_.elapsed, .reportSuccess domain id⟩))
  | _, _, _ => (t, pool)

/-- From the cookies to the pipeline: the page is reported and counted. -/
def SessionTask.report (at_ : Moment) (sessionId : Option Nat) (pool : Option (Pool cfg))
    (t : SessionTask) : SessionTask × Option (Pool cfg) :=
  let (t, pool) := reportSessionSuccess anchor at_ sessionId pool t
  ({ t with stage := .pipeline }, pool)

/-- `run_crawl_task_inner` from one `.await` to the next. -/
def SessionTask.resume (at_ : Moment) (pool : Option (Pool cfg)) (t : SessionTask) :
    Stage → TaskMove → Option (SessionTask × Option (Pool cfg))
  | .waiting, .start =>
      match acquireSession anchor at_ pool t with
      | (none, t, pool) => some ({ t with stage := .ended }, pool)
      | (some sessionId, t, pool) =>
          some ({ t with stage := if t.parsedUrl.isSome then .fetching sessionId else .ended }, pool)
  | .fetching _, .fetched (.error _) => some ({ t with stage := .ended }, pool)
  | .fetching sessionId, .fetched (.page cookies) =>
      -- without cookies `ingest_cookies` returns before its `.await`
      if cookies then some ({ t with stage := .ingesting sessionId }, pool)
      else some (t.report anchor at_ sessionId pool)
  | .ingesting sessionId, .ingested => some (t.report anchor at_ sessionId pool)
  | .pipeline, .piped continues => some ({ t with stage := if continues then .sending else .ended }, pool)
  | .sending, .sent _ => some ({ t with stage := .linking }, pool)
  | .linking, .linked => some ({ t with stage := .ended }, pool)
  | .ended, .abort => none
  | .waiting, .abort => none
  | _, .abort => some ({ t with stage := .ended }, pool)
  | _, _ => none

/-- The tasks of a crawl, and `session_pool`. -/
structure Crawl (cfg : SessionPoolConfig) where
  pool : Option (Pool cfg)
  tasks : List SessionTask

structure Action where
  task : Nat
  at_ : Moment
  move : TaskMove

def Crawl.step (c : Crawl cfg) (a : Action) : Option (Crawl cfg) :=
  c.tasks[a.task]?.bind fun t =>
    (t.resume anchor a.at_ c.pool t.stage a.move).map fun (t', pool) =>
      ⟨pool, c.tasks.set a.task t'⟩

end Tasks

/-! ## Reports -/

/-- Whether a call reports on a session of a domain. -/
def PoolCall.reports (domain : List Char) (sessionId : Nat) : PoolCall → Bool
  | .succeeded d id => d == domain && id == sessionId
  | .failed d id _ => d == domain && id == sessionId
  | .acquired .. => false

/-- Every acquire of the session is followed by one report on it, a failure where the fetch failed. -/
def ReportedOnce (fetchFailed : Prop) (domain : List Char) (sessionId : Nat)
    (calls : List PoolCall) : Prop :=
  ∀ before after, calls = before ++ .acquired domain (some sessionId) :: after →
    (after.filter (·.reports domain sessionId)).length = 1 ∧
      (fetchFailed → .succeeded domain sessionId ∉ after)

/-- The fetch of the task answered an error. -/
def FetchFailed (i : Nat) (actions : List Action) : Prop :=
  ∃ a ∈ actions, a.task = i ∧ ∃ waf, a.move = .fetched (.error waf)

/-- The fetch of the task answered a page, and the cookies of the page were ingested. -/
def PageIngested (i : Nat) (actions : List Action) : Prop :=
  ∃ a ∈ actions, a.task = i ∧ (a.move = .fetched (.page false) ∨ a.move = .ingested)

theorem fetchFailed_append {i : Nat} {actions : List Action} {a : Action} :
    FetchFailed i (actions ++ [a]) ↔
      FetchFailed i actions ∨ a.task = i ∧ ∃ waf, a.move = .fetched (.error waf) := by
  simp [FetchFailed, or_and_right, exists_or]

theorem pageIngested_append {i : Nat} {actions : List Action} {a : Action} :
    PageIngested i (actions ++ [a]) ↔ PageIngested i actions ∨
      a.task = i ∧ (a.move = .fetched (.page false) ∨ a.move = .ingested) := by
  simp [PageIngested, or_and_right, exists_or]

/-- The calls of a task that has asked for its session and not reported on it. -/
def Asked (pooled : Bool) (t : SessionTask) : Option Nat → Prop
  | none => ∀ domain id, .acquired domain (some id) ∉ t.calls
  | some id => pooled = true ∧ t.calls = [.acquired t.domain (some id)]

/-- The calls of a task that has reported on its session where it could. -/
def Reported (t : SessionTask) : Prop :=
  (∀ domain id, .acquired domain (some id) ∉ t.calls) ∨
    ∃ id, t.calls = .acquired t.domain (some id) :: (t.host.map (PoolCall.succeeded · id)).toList

/-- The calls of a task by the stage it is at, and by what it was resumed with. -/
def Settled (pooled : Bool) (fetchFailed ingested : Prop) (t : SessionTask) : Prop :=
  match t.stage with
  | .waiting => t.calls = [] ∧ ¬ fetchFailed ∧ ¬ ingested
  | .fetching sessionId => Asked pooled t sessionId ∧ ¬ fetchFailed ∧ ¬ ingested
  | .ingesting sessionId => Asked pooled t sessionId ∧ ¬ fetchFailed ∧ ¬ ingested
  | .pipeline => Reported t ∧ ¬ fetchFailed ∧ ingested
  | .sending => Reported t ∧ ¬ fetchFailed ∧ ingested
  | .linking => Reported t ∧ ¬ fetchFailed ∧ ingested
  | .ended => (∃ sessionId, Asked pooled t sessionId) ∧ ¬ ingested ∨ Reported t ∧ ¬ fetchFailed ∧ ingested

section Runs

variable {cfg : SessionPoolConfig} {anchor : Nat} {at_ : Moment} {pool pool' : Option (Pool cfg)}
  {t t' : SessionTask} {move : TaskMove} {fetchFailed ingested : Prop}

variable (anchor at_ pool) in
theorem acquireSession_spec (unasked : t.calls = []) :
    ∃ answer t' pool', acquireSession anchor at_ pool t = (answer, t', pool') ∧
      Asked pool.isSome t' answer.join ∧ t'.parsedUrl = t.parsedUrl ∧
      pool'.isSome = pool.isSome := by
  cases pool with
  | none =>
      refine ⟨_, _, _, rfl, fun domain id asked => ?_, rfl, rfl⟩
      exact absurd (unasked ▸ asked) List.not_mem_nil
  | some p =>
      refine ⟨_, _, _, rfl, ?_, rfl, rfl⟩
      rw [unasked, List.nil_append]
      cases (acquire cfg anchor at_.rank t.domain (p.clock + at_.elapsed) p.sessions).1 with
      | none => exact fun domain id asked => nomatch List.mem_singleton.mp asked
      | some id => exact ⟨rfl, rfl⟩

variable (anchor at_) in
theorem reportSessionSuccess_spec {sessionId : Option Nat}
    (asked : Asked pool.isSome t sessionId) :
    ∃ t' pool', reportSessionSuccess anchor at_ sessionId pool t = (t', pool') ∧ Reported t' ∧
      t'.parsedUrl = t.parsedUrl ∧ pool'.isSome = pool.isSome := by
  cases sessionId with
  | none =>
      refine ⟨t, pool, ?_, .inl asked, rfl, rfl⟩
      cases pool <;> rfl
  | some id =>
      obtain ⟨pooled, calls⟩ := asked
      obtain ⟨p, rfl⟩ := Option.isSome_iff_exists.mp pooled
      cases host : t.host with
      | none =>
          refine ⟨t, some p, ?_, .inr ⟨id, ?_⟩, rfl, rfl⟩
          · simp only [reportSessionSuccess, host]
          · rw [calls, host]
            rfl
      | some domain =>
          refine ⟨{ t with calls := t.calls ++ [.succeeded domain id] },
            some (p.call anchor ⟨at_.elapsed, .reportSuccess domain id⟩), ?_, .inr ⟨id, ?_⟩, rfl, rfl⟩
          · simp only [reportSessionSuccess, host]
          · have host' : ({ t with calls := t.calls ++ [.succeeded domain id] } : SessionTask).host =
                some domain := host
            rw [host', calls]
            rfl

variable (anchor at_) in
theorem report_spec {sessionId : Option Nat} (asked : Asked pool.isSome t sessionId) :
    ∃ t' pool', t.report anchor at_ sessionId pool = (t', pool') ∧ t'.stage = .pipeline ∧
      Reported t' ∧ t'.parsedUrl = t.parsedUrl ∧ pool'.isSome = pool.isSome := by
  obtain ⟨t', pool', called, reported, url, pooled⟩ :=
    reportSessionSuccess_spec anchor at_ asked
  refine ⟨{ t' with stage := .pipeline }, pool', ?_, rfl, reported, url, pooled⟩
  rw [SessionTask.report, called]

/-- What one move keeps of a task's calls. -/
theorem resume_settled (settled : Settled pool.isSome fetchFailed ingested t)
    (next : t.resume anchor at_ pool t.stage move = some (t', pool')) :
    Settled pool.isSome (fetchFailed ∨ ∃ waf, move = .fetched (.error waf))
      (ingested ∨ move = .fetched (.page false) ∨ move = .ingested) t' ∧
      t'.parsedUrl = t.parsedUrl ∧ pool'.isSome = pool.isSome := by
  unfold Settled at settled
  cases stage : t.stage with
  | waiting =>
      rw [stage] at settled next
      obtain ⟨unasked, unfailed, unread⟩ := settled
      cases move with
      | start =>
          obtain ⟨answer, t₁, pool₁, called, asked, url, pooled⟩ :=
            acquireSession_spec anchor at_ pool unasked
          rw [SessionTask.resume, called] at next
          cases answer with
          | none =>
              cases next
              exact ⟨.inl ⟨⟨none, asked⟩, by simpa using unread⟩, url, pooled⟩
          | some sessionId =>
              cases next
              cases parsed : t₁.parsedUrl.isSome with
              | true =>
                  simp only [Settled, if_true]
                  exact ⟨⟨asked, by simpa using unfailed, by simpa using unread⟩, url, pooled⟩
              | false =>
                  exact ⟨.inl ⟨⟨sessionId, asked⟩, by simpa using unread⟩, url, pooled⟩
      | _ => cases next
  | fetching sessionId =>
      rw [stage] at settled next
      obtain ⟨asked, unfailed, unread⟩ := settled
      cases move with
      | fetched answer =>
          cases answer with
          | error waf =>
              cases next
              exact ⟨.inl ⟨⟨sessionId, asked⟩, by simpa using unread⟩, rfl, rfl⟩
          | page cookies =>
              cases cookies with
              | true =>
                  cases next
                  exact ⟨⟨asked, by simpa using unfailed, by simpa using unread⟩, rfl, rfl⟩
              | false =>
                  obtain ⟨t₁, pool₁, called, piping, reported, url, pooled⟩ :=
                    report_spec anchor at_ asked
                  simp only [SessionTask.resume, called, Bool.false_eq_true, if_false] at next
                  cases next
                  refine ⟨?_, url, pooled⟩
                  rw [Settled, piping]
                  exact ⟨reported, by simpa using unfailed, .inr (.inl rfl)⟩
      | abort =>
          cases next
          exact ⟨.inl ⟨⟨sessionId, asked⟩, by simpa using unread⟩, rfl, rfl⟩
      | _ => cases next
  | ingesting sessionId =>
      rw [stage] at settled next
      obtain ⟨asked, unfailed, unread⟩ := settled
      cases move with
      | ingested =>
          obtain ⟨t₁, pool₁, called, piping, reported, url, pooled⟩ :=
            report_spec anchor at_ asked
          rw [SessionTask.resume, called] at next
          cases next
          refine ⟨?_, url, pooled⟩
          rw [Settled, piping]
          exact ⟨reported, by simpa using unfailed, .inr (.inr rfl)⟩
      | abort =>
          cases next
          exact ⟨.inl ⟨⟨sessionId, asked⟩, by simpa using unread⟩, rfl, rfl⟩
      | _ => cases next
  | pipeline =>
      rw [stage] at settled next
      obtain ⟨reported, unfailed, read⟩ := settled
      cases move with
      | piped continues =>
          cases next
          cases continues with
          | true => exact ⟨⟨reported, by simpa using unfailed, .inl read⟩, rfl, rfl⟩
          | false => exact ⟨.inr ⟨reported, by simpa using unfailed, .inl read⟩, rfl, rfl⟩
      | abort =>
          cases next
          exact ⟨.inr ⟨reported, by simpa using unfailed, .inl read⟩, rfl, rfl⟩
      | _ => cases next
  | sending =>
      rw [stage] at settled next
      obtain ⟨reported, unfailed, read⟩ := settled
      cases move with
      | sent delivered =>
          cases next
          exact ⟨⟨reported, by simpa using unfailed, .inl read⟩, rfl, rfl⟩
      | abort =>
          cases next
          exact ⟨.inr ⟨reported, by simpa using unfailed, .inl read⟩, rfl, rfl⟩
      | _ => cases next
  | linking =>
      rw [stage] at settled next
      obtain ⟨reported, unfailed, read⟩ := settled
      cases move with
      | linked =>
          cases next
          exact ⟨.inr ⟨reported, by simpa using unfailed, .inl read⟩, rfl, rfl⟩
      | abort =>
          cases next
          exact ⟨.inr ⟨reported, by simpa using unfailed, .inl read⟩, rfl, rfl⟩
      | _ => cases next
  | ended =>
      rw [stage] at next
      cases move <;> cases next

/-! ## Runs of the tasks of a crawl -/

variable {c c' : Crawl cfg} {actions : List Action}

theorem crawlStep_some {a : Action} :
    c.step anchor a = some c' ↔ ∃ t t' pool', c.tasks[a.task]? = some t ∧
      t.resume anchor a.at_ c.pool t.stage a.move = some (t', pool') ∧
      c' = ⟨pool', c.tasks.set a.task t'⟩ := by
  simp only [Crawl.step, Option.bind_eq_some_iff, Option.map_eq_some_iff, Prod.exists]
  constructor
  · intro ⟨t, found, t', pool', next, same⟩
    exact ⟨t, t', pool', found, next, same.symm⟩
  · intro ⟨t, t', pool', found, next, same⟩
    exact ⟨t, found, t', pool', next, same.symm⟩

/-- A task of a run is settled by the actions so far. -/
theorem run_settled_tasks {urls : List (Option (Option (List Char)))}
    (run : execute (Crawl.step anchor) ⟨pool, urls.map .new⟩ actions = some c) :
    c.pool.isSome = pool.isSome ∧ ∀ i t, c.tasks[i]? = some t →
      Settled pool.isSome (FetchFailed i actions) (PageIngested i actions) t ∧
        urls[i]? = some t.parsedUrl := by
  induction actions using List.reverseRecOn generalizing c with
  | nil =>
      cases run
      refine ⟨rfl, fun i t found => ?_⟩
      rw [List.getElem?_map, Option.map_eq_some_iff] at found
      obtain ⟨url, at_, rfl⟩ := found
      exact ⟨⟨rfl, by simp [FetchFailed], by simp [PageIngested]⟩, at_⟩
  | append_singleton actions a ih =>
      obtain ⟨m, run, last⟩ := execute_append_eq_some.mp run
      obtain ⟨c', next, done⟩ := execute_cons_eq_some.mp last
      cases done
      obtain ⟨pooled, settled⟩ := ih run
      obtain ⟨t, t', pool', found, moved, rfl⟩ := crawlStep_some.mp next
      obtain ⟨here, url⟩ := settled a.task t found
      rw [← pooled] at here
      obtain ⟨there, sameUrl, samePool⟩ := resume_settled here moved
      refine ⟨samePool.trans pooled, fun i t₁ found₁ => ?_⟩
      by_cases same : a.task = i
      · subst same
        rw [List.getElem?_set_self (List.getElem?_eq_some_iff.mp found).1] at found₁
        cases found₁
        rw [fetchFailed_append, pageIngested_append, ← pooled]
        simp only [true_and]
        exact ⟨there, sameUrl ▸ url⟩
      · rw [List.getElem?_set_ne same] at found₁
        rw [fetchFailed_append, pageIngested_append]
        simp only [same, false_and, or_false]
        exact settled i t₁ found₁

theorem not_reportedOnce_alone {domain : List Char} {id : Nat} :
    ¬ ReportedOnce fetchFailed domain id [.acquired domain (some id)] := by
  intro once
  exact Nat.zero_ne_one (once [] [] rfl).1

theorem reportedOnce_succeeded {domain : List Char} {id : Nat} (unfailed : ¬ fetchFailed) :
    ReportedOnce fetchFailed domain id [.acquired domain (some id), .succeeded domain id] := by
  intro before after split_
  cases before with
  | nil =>
      cases split_
      refine ⟨?_, fun failed => absurd failed unfailed⟩
      rw [List.filter_singleton, PoolCall.reports, beq_self_eq_true, beq_self_eq_true]
      rfl
  | cons call before =>
      have member : .acquired domain (some id) ∈ [PoolCall.succeeded domain id] := by
        rw [(List.cons.inj split_).2]
        exact List.mem_append_right _ (List.mem_cons_self ..)
      exact nomatch List.mem_singleton.mp member

/-- What a task that has ended has reported. -/
theorem reportedOnce_of_settled {pooled : Bool} (settled : Settled pooled fetchFailed ingested t)
    (ended : t.stage = .ended) {domain : List Char} {id : Nat}
    (acquired : .acquired domain (some id) ∈ t.calls) :
    ReportedOnce fetchFailed domain id t.calls ↔ ingested ∧ t.host.isSome := by
  rw [Settled, ended] at settled
  rcases settled with ⟨⟨sessionId, asked⟩, unread⟩ | ⟨reported, unfailed, read⟩
  · refine iff_of_false ?_ fun both => unread both.1
    cases sessionId with
    | none => exact absurd acquired (asked domain id)
    | some id' =>
        rw [asked.2, List.mem_singleton] at acquired
        cases acquired
        rw [asked.2]
        exact not_reportedOnce_alone
  · rcases reported with unasked | ⟨id', calls⟩
    · exact absurd acquired (unasked domain id)
    cases host : t.host with
    | none =>
        rw [host, Option.map_none, Option.toList_none] at calls
        rw [calls, List.mem_singleton] at acquired
        cases acquired
        rw [calls]
        exact iff_of_false not_reportedOnce_alone fun both => nomatch both.2
    | some name =>
        rw [host, Option.map_some, Option.toList_some, SessionTask.domain, host,
          Option.getD_some] at calls
        rw [calls, List.mem_cons] at acquired
        have first := acquired.resolve_right fun later => nomatch List.mem_singleton.mp later
        cases first
        rw [calls]
        exact iff_of_true (reportedOnce_succeeded unfailed) ⟨read, rfl⟩

/-- A session that a task of a crawl has acquired is reported on once, and as a failure where the
fetch failed, exactly where the page was fetched and its cookies ingested before any abort, and the
URL has a host. -/
theorem reportedOnce_iff {urls : List (Option (Option (List Char)))}
    (run : execute (Crawl.step anchor) ⟨pool, urls.map .new⟩ actions = some c) {i : Nat}
    (found : c.tasks[i]? = some t) (ended : t.stage = .ended) {domain : List Char} {id : Nat}
    (acquired : .acquired domain (some id) ∈ t.calls) :
    ReportedOnce (FetchFailed i actions) domain id t.calls ↔
      PageIngested i actions ∧ ∃ host, urls[i]? = some (some (some host)) := by
  obtain ⟨settled, url⟩ := (run_settled_tasks run).2 i t found
  rw [reportedOnce_of_settled settled ended acquired, url]
  refine and_congr_right fun _ => ?_
  rw [SessionTask.host]
  rcases t.parsedUrl with - | - | host <;> simp

/-- A move of a task that is not resumed with a page leaves the pool as it was, once the task has
its session: the slot keeps the health it was acquired with. -/
theorem pool_of_failed {a : Action} (next : c.step anchor a = some c')
    (failed : a.move = .abort ∨ ∃ waf, a.move = .fetched (.error waf)) : c'.pool = c.pool := by
  obtain ⟨t, t', pool', -, moved, rfl⟩ := crawlStep_some.mp next
  rcases failed with aborted | ⟨waf, error⟩
  · rw [aborted] at moved
    cases stage : t.stage <;> rw [stage] at moved <;> cases moved
    all_goals rfl
  · rw [error] at moved
    cases stage : t.stage <;> rw [stage] at moved <;> cases moved
    all_goals rfl

end Runs

/-- A crawl of one page with a pool. -/
def onePage : Crawl .default := ⟨some (Pool.new .default 0), [some (some ['a', '.', 'b'])].map .new⟩

/-- The page is fetched and reported on, and not passed on by the pipeline. -/
def fetchedPage : List Action :=
  [⟨0, ⟨0, fun _ => 0⟩, .start⟩, ⟨0, ⟨0, fun _ => 0⟩, .fetched (.page false)⟩,
    ⟨0, ⟨0, fun _ => 0⟩, .piped false⟩]

theorem fetched_page_reported :
    ∃ c t, execute (Crawl.step 0) onePage fetchedPage = some c ∧ c.tasks[0]? = some t ∧
      (ReportedOnce (FetchFailed 0 fetchedPage) ['a', '.', 'b'] 6 t.calls ↔
        PageIngested 0 fetchedPage ∧
          ∃ host, [some (some ['a', '.', 'b'])][0]? = some (some (some host))) := by
  have run : execute (Crawl.step 0) onePage fetchedPage = some _ := rfl
  refine ⟨_, _, run, rfl, reportedOnce_iff run rfl rfl ?_⟩
  decide +kernel

/-- The fetch of the page answers an error. -/
def failingFetch : List Action :=
  [⟨0, ⟨0, fun _ => 0⟩, .start⟩, ⟨0, ⟨0, fun _ => 0⟩, .fetched (.error false)⟩]

/-- The session of a fetch that fails is never reported on. -/
theorem failed_fetch_unreported :
    ∃ c t, execute (Crawl.step 0) onePage failingFetch = some c ∧ c.tasks[0]? = some t ∧
      t.stage = .ended ∧ .acquired ['a', '.', 'b'] (some 6) ∈ t.calls ∧
      ¬ ReportedOnce (FetchFailed 0 failingFetch) ['a', '.', 'b'] 6 t.calls := by
  refine ⟨_, _, rfl, rfl, rfl, by decide +kernel, ?_⟩
  exact not_reportedOnce_alone

end CrawlSession

end Webfang
