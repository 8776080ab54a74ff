import Webfang.Embedding.InferencePool

/-!
# Runs of the inference pool

However calls, workers and the owner interleave: a request is in one place until it is answered, and
the locks, the threads and the owner keep out of each other's way.
-/

namespace Webfang

open StepSystem Parties

namespace InferencePool

/-! ## What a step can do -/

/-- Each move, with what it needs and what it changes. -/
inductive Moves (session : OnnxSession) (s : InferencePool) : PoolAction → InferencePool → Prop
  | infer {input} (owned : s.handle = .owned) :
      Moves session s (.infer input) { s with calls := s.calls ++ [.sending input] }
  | enqueue {i input} (found : s.calls[i]? = some (.sending input)) (room : s.isClosed = false) :
      Moves session s (.send i)
        { s.moveCall i (.waiting input .unanswered) with queue := s.queue ++ [⟨i, input⟩] }
  | refuse {i input} (found : s.calls[i]? = some (.sending input)) (closed : s.isClosed = true) :
      Moves session s (.send i) (s.moveCall i (.returned input (.error channelClosed)))
  | finish {i input slot result} (found : s.calls[i]? = some (.waiting input slot))
      (ready : slot.result = some result) :
      Moves session s (.finish i) (s.moveCall i (.returned input result))
  | abandon {i call} (found : s.calls[i]? = some call) (live : call.isSettled = false) :
      Moves session s (.abandon i) (s.moveCall i (.dropped call.input))
  | lockReceiver {w} (found : s.workers[w]? = some .receiving) (free : s.holders = 0) :
      Moves session s (.lockReceiver w) (s.moveWorker w .holding)
  | take {w request rest} (found : s.workers[w]? = some .holding) (head : s.queue = request :: rest)
      (ready : s.plan.isSome) :
      Moves session s (.recv w) { s.moveWorker w (.serving request) with queue := rest }
  | drain {w request rest} (found : s.workers[w]? = some .holding) (head : s.queue = request :: rest)
      (failed : s.plan = none) :
      Moves session s (.recv w)
        ({ s.moveWorker w .receiving with queue := rest }.answer .closed request)
  | disconnect {w} (found : s.workers[w]? = some .holding) (disowned : s.handle ≠ .owned) :
      Moves session s (.recv w) (s.moveWorker w (.leaving false))
  | fail {w request} (found : s.workers[w]? = some (.serving request)) (poisoned : s.poisoned = true) :
      Moves session s (.lockSession w)
        (s.moveWorker w (.replying request (.error sessionPoisoned)))
  | enter {w request} (found : s.workers[w]? = some (.serving request)) (sane : s.poisoned = false)
      (free : s.runners = 0) : Moves session s (.lockSession w) (s.moveWorker w (.running request))
  | compute {w request plan} (found : s.workers[w]? = some (.running request))
      (ready : s.plan = some plan) :
      Moves session s (.compute w)
        (s.moveWorker w (.replying request (session.runSessionInference request.input plan)))
  | panic {w request} (found : s.workers[w]? = some (.running request)) :
      Moves session s (.panic w) { s.moveWorker w (.unwinding request) with poisoned := true }
  | reply {w request result} (found : s.workers[w]? = some (.replying request result)) :
      Moves session s (.reply w) ((s.moveWorker w .receiving).answer (.sent result) request)
  | unwind {w request} (found : s.workers[w]? = some (.unwinding request)) :
      Moves session s (.unwind w) ((s.moveWorker w (.leaving true)).answer .closed request)
  | leave {w panicked} (found : s.workers[w]? = some (.leaving panicked)) :
      Moves session s (.leave w) (s.moveWorker w (.gone panicked)).closeReceiver
  | drop (owned : s.handle = .owned) (settled : ∀ call ∈ s.calls, call.isSettled = true) :
      Moves session s .drop { s with handle := .dropping }
  | join (dropping : s.handle = .dropping) (closed : s.isClosed = true) :
      Moves session s .join { s with handle := .joined }

variable {session : OnnxSession} {s t : InferencePool}

theorem moves_of_send {i : Nat} (step : s.send i = some t) : Moves session s (.send i) t := by
  unfold InferencePool.send at step
  split at step
  next input found =>
      split at step
      next closed =>
          cases step
          exact .refuse found closed
      next open_ =>
          split at step
          · cases step
            exact .enqueue found (Bool.eq_false_of_not_eq_true open_)
          · cases step
  next => cases step

theorem moves_of_recv {w : Nat} (step : s.recv w = some t) : Moves session s (.recv w) t := by
  unfold InferencePool.recv at step
  split at step
  next request rest found head =>
      split at step
      next plan ready =>
          cases step
          exact .take found head (by rw [ready]; rfl)
      next failed =>
          cases step
          exact .drain found head failed
  next found empty =>
      split at step
      · cases step
      next disowned =>
          cases step
          exact .disconnect found disowned
  next => cases step

theorem moves_of_lockSession {w : Nat} (step : s.lockSession w = some t) :
    Moves session s (.lockSession w) t := by
  unfold InferencePool.lockSession at step
  split at step
  next request found =>
      split at step
      next poisoned =>
          cases step
          exact .fail found poisoned
      next sane =>
          split at step
          next free =>
              cases step
              exact .enter found (Bool.eq_false_of_not_eq_true sane) free
          next => cases step
  next => cases step

theorem moves_of_step {a : PoolAction} (step : poolStep session s a = some t) :
    Moves session s a t := by
  cases a with
  | infer input =>
      simp only [poolStep] at step
      split at step
      next owned =>
          cases step
          exact .infer owned
      next => cases step
  | send i => exact moves_of_send step
  | finish i =>
      simp only [poolStep] at step
      split at step
      next input slot found =>
          obtain ⟨result, ready, rfl⟩ := Option.map_eq_some_iff.mp step
          exact .finish found ready
      next => cases step
  | abandon i =>
      simp only [poolStep] at step
      split at step
      next found =>
          cases step
          exact .abandon found rfl
      next found =>
          cases step
          exact .abandon found rfl
      next => cases step
  | lockReceiver w =>
      simp only [poolStep] at step
      split at step
      next found =>
          split at step
          next free =>
              cases step
              exact .lockReceiver found free
          next => cases step
      next => cases step
  | recv w => exact moves_of_recv step
  | lockSession w => exact moves_of_lockSession step
  | compute w =>
      simp only [poolStep] at step
      split at step
      next found ready =>
          cases step
          exact .compute found ready
      next => cases step
  | panic w =>
      simp only [poolStep] at step
      split at step
      next found =>
          cases step
          exact .panic found
      next => cases step
  | reply w =>
      simp only [poolStep] at step
      split at step
      next found =>
          cases step
          exact .reply found
      next => cases step
  | unwind w =>
      simp only [poolStep] at step
      split at step
      next found =>
          cases step
          exact .unwind found
      next => cases step
  | leave w =>
      simp only [poolStep] at step
      split at step
      next found =>
          cases step
          exact .leave found
      next => cases step
  | drop =>
      simp only [poolStep] at step
      split at step
      next idle =>
          cases step
          exact .drop idle.1 (List.all_eq_true.mp idle.2)
      next => cases step
  | join =>
      simp only [poolStep] at step
      split at step
      next done =>
          cases step
          exact .join done.1 done.2
      next => cases step

/-! ## Requests under way -/

/-- The call expects an answer to this input, or none any more. -/
def Expects (input : ModelInput) (call : InferCall) : Prop :=
  call = .waiting input .unanswered ∨ call = .dropped input

/-- Each request is one call's, and each call without an answer has one request. -/
structure Linear (calls : List InferCall) (requests : List WorkerRequest) : Prop where
  once : (requests.map WorkerRequest.call).Nodup
  expected : ∀ request ∈ requests, ∃ call, calls[request.call]? = some call ∧
    Expects request.input call
  held : ∀ i input, calls[i]? = some (.waiting input .unanswered) →
    ∃ request ∈ requests, request.call = i

section Linear

variable {calls : List InferCall} {requests rest : List WorkerRequest} {request : WorkerRequest}
  {i : Nat} {input : ModelInput} {before behind : InferCall}

theorem linear_nil : Linear [] [] where
  once := List.nodup_nil
  expected _ member := absurd member List.not_mem_nil
  held _ _ found := by simp at found

theorem Linear.perm (linear : Linear calls requests) (perm : requests.Perm rest) :
    Linear calls rest where
  once := (perm.map _).nodup_iff.mp linear.once
  expected request member := linear.expected request (perm.mem_iff.mpr member)
  held i input found := by
    obtain ⟨request, member, same⟩ := linear.held i input found
    exact ⟨request, perm.mem_iff.mp member, same⟩

theorem Linear.concat (linear : Linear calls requests) (input : ModelInput) :
    Linear (calls ++ [.sending input]) requests where
  once := linear.once
  expected request member := by
    obtain ⟨call, found, expects⟩ := linear.expected request member
    have inside := (List.getElem?_eq_some_iff.mp found).1
    exact ⟨call, (List.getElem?_append_left inside).trans found, expects⟩
  held i other found := by
    rw [List.getElem?_append] at found
    split at found
    · exact linear.held i other found
    · rw [List.getElem?_singleton] at found
      split at found
      · cases found
      · cases found

/-- A call that has no request moves on. -/
theorem Linear.moveCall (linear : Linear calls requests) (found : calls[i]? = some before)
    (settles : ∀ input, Expects input before → Expects input behind)
    (answered : ∀ input, behind ≠ .waiting input .unanswered) :
    Linear (calls.set i behind) requests where
  once := linear.once
  expected request member := by
    obtain ⟨call, there, expects⟩ := linear.expected request member
    by_cases same : i = request.call
    · subst same
      obtain rfl : before = call := Option.some.inj (found.symm.trans there)
      refine ⟨behind, ?_, settles _ expects⟩
      exact List.getElem?_set_self (List.getElem?_eq_some_iff.mp found).1
    · exact ⟨call, (List.getElem?_set_ne same).trans there, expects⟩
  held j other there := by
    by_cases same : i = j
    · subst same
      rw [List.getElem?_set_self (List.getElem?_eq_some_iff.mp found).1] at there
      exact absurd (Option.some.inj there) (answered other)
    · exact linear.held j other ((List.getElem?_set_ne same).symm.trans there)

/-- A call that sends its request waits for the answer. -/
theorem Linear.enqueue (linear : Linear calls requests)
    (found : calls[i]? = some (.sending input)) :
    Linear (calls.set i (.waiting input .unanswered)) (⟨i, input⟩ :: requests) := by
  have inside : i < calls.length := (List.getElem?_eq_some_iff.mp found).1
  have fresh : ∀ request ∈ requests, i ≠ request.call := by
    intro request member same
    obtain ⟨call, there, expects⟩ := linear.expected request member
    rw [← same, found, Option.some.injEq] at there
    rcases expects with waits | gone
    · cases there.trans waits
    · cases there.trans gone
  refine ⟨?_, ?_, ?_⟩
  · rw [List.map_cons, List.nodup_cons]
    refine ⟨fun member => ?_, linear.once⟩
    obtain ⟨request, inside, same⟩ := List.mem_map.mp member
    exact fresh request inside same.symm
  · intro request member
    rcases List.mem_cons.mp member with rfl | later
    · exact ⟨_, List.getElem?_set_self inside, .inl rfl⟩
    · obtain ⟨call, there, expects⟩ := linear.expected request later
      exact ⟨call, (List.getElem?_set_ne (fresh request later)).trans there, expects⟩
  · intro j other there
    by_cases same : i = j
    · exact ⟨⟨i, input⟩, List.mem_cons_self, same⟩
    · rw [List.getElem?_set_ne same] at there
      obtain ⟨request, member, found'⟩ := linear.held j other there
      exact ⟨request, List.mem_cons_of_mem _ member, found'⟩

/-- A request leaves with its answer. -/
theorem Linear.answer (linear : Linear calls (request :: rest)) {slot : ReplySlot}
    (ready : slot ≠ .unanswered) :
    Linear (request.answer slot calls) rest := by
  obtain ⟨fresh, once⟩ := List.nodup_cons.mp linear.once
  refine ⟨once, fun other member => ?_, fun j input there => ?_⟩
  · obtain ⟨call, there, expects⟩ := linear.expected other (List.mem_cons_of_mem _ member)
    have ne : request.call ≠ other.call := fun same => fresh (same ▸ List.mem_map_of_mem member)
    refine ⟨call, ?_, expects⟩
    rw [WorkerRequest.answer, List.getElem?_modify_ne _ _ ne]
    exact there
  · rw [WorkerRequest.answer, List.getElem?_modify] at there
    obtain ⟨call, found, same⟩ := Option.map_eq_some_iff.mp there
    split at same
    next here =>
        obtain ⟨_, found', expects⟩ := linear.expected request List.mem_cons_self
        rw [here, found, Option.some.injEq] at found'
        subst found'
        rcases expects with rfl | rfl
        · cases same
          exact absurd rfl ready
        · cases same
    next elsewhere =>
        cases same
        obtain ⟨other, member, same⟩ := linear.held j input found
        rcases List.mem_cons.mp member with rfl | later
        · exact absurd same elsewhere
        · exact ⟨other, later, same⟩

end Linear

/-- The requests in the channel and with the workers. -/
def underWay (s : InferencePool) : List WorkerRequest :=
  s.queue ++ s.workers.filterMap WorkerPhase.request

/-- A worker that moves changes the requests under way by its own. -/
theorem underWay_moveWorker {w : Nat} {before : WorkerPhase} (found : s.workers[w]? = some before)
    (behind : WorkerPhase) : ((s.moveWorker w behind).underWay ++ before.request.toList).Perm
      (s.underWay ++ behind.request.toList) := by
  rw [underWay, underWay, List.append_assoc, List.append_assoc]
  exact (filterMap_set_perm WorkerPhase.request found behind).append_left _

theorem Linear.foldl_answer {calls : List InferCall} {requests rest : List WorkerRequest}
    (linear : Linear calls (requests ++ rest)) :
    Linear (requests.foldl (WorkerRequest.answer .closed) calls) rest := by
  induction requests generalizing calls with
  | nil => exact linear
  | cons request requests ih => exact ih (linear.answer (fun same => by cases same))

theorem linear_new (parallelism : Nat) (prepared : Except SemanticError InputPlan) :
    Linear (new parallelism prepared).calls (new parallelism prepared).underWay := by
  have idle (n : Nat) : (List.replicate n WorkerPhase.receiving).filterMap
      WorkerPhase.request = [] := by
    induction n with
    | zero => rfl
    | succ n ih => exact ih
  rw [new, underWay]
  exact (idle _).symm ▸ linear_nil

/-- No move loses a request or makes a second one of it. -/
theorem Linear.step (linear : Linear s.calls s.underWay) {a : PoolAction}
    (moves : Moves session s a t) : Linear t.calls t.underWay := by
  -- a worker that keeps what it has
  have keeps {w : Nat} {before : WorkerPhase} (found : s.workers[w]? = some before)
      (behind : WorkerPhase) (same : behind.request = before.request) :
      Linear s.calls (s.moveWorker w behind).underWay := by
    refine linear.perm (List.perm_append_right_iff before.request.toList |>.mp ?_)
    exact (same ▸ (underWay_moveWorker found behind)).symm
  -- a worker that gives its request back
  have gives {w : Nat} {before behind : WorkerPhase} {request : WorkerRequest}
      (found : s.workers[w]? = some before) (has : before.request = some request)
      (free : behind.request = none) {slot : ReplySlot} (ready : slot ≠ .unanswered) :
      Linear ((s.moveWorker w behind).answer slot request).calls
        ((s.moveWorker w behind).answer slot request).underWay := by
    have perm := underWay_moveWorker found behind
    rw [has, free] at perm
    have parted : s.underWay.Perm (request :: (s.moveWorker w behind).underWay) := by
      simpa using perm.symm.trans List.perm_append_comm
    exact (linear.perm parted).answer ready
  cases moves with
  | infer owned => exact linear.concat _
  | enqueue found room =>
      refine (linear.enqueue found).perm ?_
      rw [underWay, underWay, List.append_assoc]
      exact List.perm_middle.symm
  | refuse found closed =>
      exact linear.moveCall found (by simp [Expects]) (by simp)
  | finish found ready =>
      refine linear.moveCall found (fun other expects => ?_) (by simp)
      rcases expects with same | same
      · cases same
        cases ready
      · cases same
  | abandon found live =>
      refine linear.moveCall found (fun other expects => ?_) (by simp)
      rcases expects with rfl | rfl
      · exact .inr rfl
      · cases live
  | lockReceiver found free => exact keeps found _ rfl
  | @take w request rest found head ready =>
      have perm := underWay_moveWorker found (.serving request)
      rw [underWay, moveWorker, head] at perm
      have taken : (request :: (rest ++ (s.workers.set w (.serving request)).filterMap
          WorkerPhase.request)).Perm (request :: s.underWay) := by
        simpa [WorkerPhase.request] using perm.trans List.perm_append_comm
      exact linear.perm taken.cons_inv.symm
  | @drain w request rest found head failed =>
      have kept := keeps found .receiving rfl
      rw [underWay, moveWorker, head, List.cons_append] at kept
      exact kept.answer (by simp)
  | disconnect found disowned => exact keeps found _ rfl
  | fail found poisoned => exact keeps found _ rfl
  | enter found sane free => exact keeps found _ rfl
  | compute found ready => exact keeps found _ rfl
  | panic found => exact keeps found _ rfl
  | reply found => exact gives found rfl rfl (by simp)
  | unwind found => exact gives found rfl rfl (by simp)
  | @leave w panicked found =>
      have kept := keeps found (.gone panicked) rfl
      rw [closeReceiver]
      split
      · exact kept.foldl_answer
      · exact kept
  | drop owned settled => exact linear
  | join dropping closed => exact linear

/-! ## Locks, threads and the owner -/

/-- What the two locks, the threads and the owner keep. -/
structure Guarded (s : InferencePool) : Prop where
  capacity : 0 < s.workerCount
  threads : s.workers.length = if s.plan.isSome then s.workerCount else 1
  holders : s.holders ≤ 1
  panicked : (s.workers.map WorkerPhase.panicked).sum = s.poisoned.toNat
  runners : s.runners + s.poisoned.toNat ≤ 1
  /-- the thread of a pool with no session has nothing to run -/
  draining : s.plan = none → ∀ worker ∈ s.workers, worker.request = none ∧ worker.panicked = 0
  /-- a worker leaves before the owner only by a panic -/
  staying : s.handle = .owned → ∀ worker ∈ s.workers,
    worker ≠ .leaving false ∧ worker ≠ .gone false
  empty : s.isClosed = true → s.queue = []
  settled : s.handle ≠ .owned → ∀ call ∈ s.calls, call.isSettled = true
  joined : s.handle = .joined → s.isClosed = true

section Guarded

variable {w i : Nat} {before behind : WorkerPhase} {call : InferCall}

theorem isClosed_eq_false (found : s.workers[w]? = some before) (live : before.isGone = false) :
    s.isClosed = false := by
  apply Bool.eq_false_of_not_eq_true
  intro closed
  have gone := List.all_eq_true.mp closed before (List.mem_of_getElem? found)
  rw [live] at gone
  cases gone

theorem isClosed_moveWorker (found : s.workers[w]? = some before) (live : behind.isGone = false) :
    (s.moveWorker w behind).isClosed = false :=
  isClosed_eq_false (List.getElem?_set_self (List.getElem?_eq_some_iff.mp found).1) live

theorem settled_answer {calls : List InferCall} (slot : ReplySlot) (request : WorkerRequest)
    (settled : ∀ call ∈ calls, call.isSettled = true) : request.answer slot calls = calls := by
  apply List.ext_getElem?
  intro j
  rw [WorkerRequest.answer, List.getElem?_modify]
  cases found : calls[j]? with
  | none => rfl
  | some call =>
      have done := settled call (List.mem_of_getElem? found)
      cases call with
      | sending | waiting => cases done
      | returned | dropped => split <;> rfl

theorem settled_foldl_answer {calls : List InferCall} (requests : List WorkerRequest)
    (settled : ∀ call ∈ calls, call.isSettled = true) :
    requests.foldl (WorkerRequest.answer .closed) calls = calls := by
  induction requests with
  | nil => rfl
  | cons request requests ih => rw [List.foldl_cons, settled_answer _ _ settled, ih]

/-- A worker moves, with what it does to the channel, the calls and the session. -/
theorem Guarded.moveWorker (guarded : s.Guarded) (found : s.workers[w]? = some before)
    (live : before.isGone = false) (behind : WorkerPhase) {poisoned : Bool}
    {queue : List WorkerRequest} {calls : List InferCall}
    (holds : s.holders + behind.holds ≤ 1 + before.holds)
    (panicked : poisoned.toNat + before.panicked = s.poisoned.toNat + behind.panicked)
    (runs : s.runners + behind.runs + poisoned.toNat ≤ 1 + before.runs)
    (drains : s.plan = none → behind.request = none ∧ behind.panicked = 0)
    (stays : s.handle = .owned → behind ≠ .leaving false ∧ behind ≠ .gone false)
    (empty : (s.moveWorker w behind).isClosed = true → queue = [])
    (settled : s.handle ≠ .owned → ∀ call ∈ calls, call.isSettled = true) :
    ({ s.moveWorker w behind with
        poisoned := poisoned, queue := queue, calls := calls } : InferencePool).Guarded where
  capacity := guarded.capacity
  threads := by
    rw [InferencePool.moveWorker, List.length_set]
    exact guarded.threads
  holders := by
    have sum := sum_set WorkerPhase.holds found behind
    change ((s.workers.set w behind).map WorkerPhase.holds).sum ≤ 1
    rw [InferencePool.holders] at holds
    omega
  panicked := by
    have sum := sum_set WorkerPhase.panicked found behind
    have here := guarded.panicked
    change ((s.workers.set w behind).map WorkerPhase.panicked).sum = poisoned.toNat
    omega
  runners := by
    have sum := sum_set WorkerPhase.runs found behind
    change ((s.workers.set w behind).map WorkerPhase.runs).sum + poisoned.toNat ≤ 1
    rw [InferencePool.runners] at runs
    omega
  draining failed := forall_mem_set (guarded.draining failed) (drains failed)
  staying owned := forall_mem_set (guarded.staying owned) (stays owned)
  empty := empty
  settled := settled
  joined done := by
    have closed := guarded.joined done
    rw [isClosed_eq_false found live] at closed
    cases closed

theorem Guarded.owned (guarded : s.Guarded) (found : s.calls[i]? = some call)
    (live : call.isSettled = false) : s.handle = .owned := by
  by_contra disowned
  have done := guarded.settled disowned call (List.mem_of_getElem? found)
  rw [live] at done
  cases done

/-- Before the owner's `Drop` the receiver goes only where a panic has ended the only worker. -/
theorem Guarded.of_isClosed (guarded : s.Guarded) (owned : s.handle = .owned)
    (closed : s.isClosed = true) : s.poisoned = true ∧ s.plan.isSome ∧ s.workerCount = 1 := by
  have ended : ∀ worker ∈ s.workers, worker = .gone true := by
    intro worker member
    have gone := List.all_eq_true.mp closed worker member
    cases worker with
    | gone panicked =>
        cases panicked with
        | true => rfl
        | false => exact absurd rfl (guarded.staying owned _ member).2
    | _ => cases gone
  have all : s.workers = List.replicate s.workers.length (.gone true) :=
    List.eq_replicate_iff.mpr ⟨rfl, ended⟩
  have sum := guarded.panicked
  rw [all, List.map_replicate, List.sum_replicate] at sum
  change s.workers.length * 1 = _ at sum
  have threads := guarded.threads
  have positive := guarded.capacity
  have within := Bool.toNat_le s.poisoned
  cases ready : s.plan with
  | none =>
      rw [ready] at threads
      have one : s.workers.length = 1 := threads
      have inside : WorkerPhase.gone true ∈ s.workers := by
        rw [all, one]
        exact List.mem_singleton_self _
      have quiet := (guarded.draining ready _ inside).2
      cases quiet
  | some plan =>
      rw [ready] at threads
      have one : s.workers.length = s.workerCount := threads
      have poisoned : s.poisoned.toNat = 1 := by omega
      exact ⟨Bool.toNat_eq_one.mp poisoned, rfl, by omega⟩

/-- Beside a worker that goes on, a panic was another's. -/
theorem Guarded.two_le (guarded : s.Guarded) (found : s.workers[w]? = some before)
    (sane : before.panicked = 0) (busy : before.request ≠ none) (poisoned : s.poisoned = true) :
    2 ≤ s.workerCount := by
  have member : before ∈ s.workers := List.mem_of_getElem? found
  have ready : s.plan.isSome := by
    cases none : s.plan with
    | none => exact absurd (guarded.draining none before member).1 busy
    | some plan => rfl
  have threads := guarded.threads
  rw [if_pos ready] at threads
  have positive := guarded.capacity
  by_contra few
  obtain ⟨only, all⟩ := List.length_eq_one_iff.mp (show s.workers.length = 1 by omega)
  have sum := guarded.panicked
  rw [all, List.mem_singleton] at member
  subst member
  rw [all, List.map_singleton, List.sum_singleton, sane, poisoned] at sum
  cases sum

theorem guarded_new (parallelism : Nat) (prepared : Except SemanticError InputPlan) :
    (new parallelism prepared).Guarded := by
  have idle (share : WorkerPhase → Nat) (quiet : share .receiving = 0) (n : Nat) :
      ((List.replicate n WorkerPhase.receiving).map share).sum = 0 := by
    rw [List.map_replicate, quiet, List.sum_replicate]
    exact Nat.mul_zero n
  refine {
    capacity := Nat.lt_of_lt_of_le Nat.zero_lt_one (Nat.le_max_right _ _)
    threads := List.length_replicate
    holders := (idle _ rfl _).le.trans (Nat.zero_le 1)
    panicked := idle _ rfl _
    runners := ?_
    draining := fun _ worker member => ?_
    staying := fun _ worker member => ?_
    empty := fun _ => rfl
    settled := fun disowned => absurd rfl disowned
    joined := fun done => by cases done }
  · change ((List.replicate _ WorkerPhase.receiving).map WorkerPhase.runs).sum + 0 ≤ 1
    rw [idle _ rfl]
    exact Nat.zero_le 1
  · cases List.eq_of_mem_replicate member
    exact ⟨rfl, rfl⟩
  · cases List.eq_of_mem_replicate member
    exact ⟨by simp, by simp⟩

theorem Guarded.step (guarded : s.Guarded) {a : PoolAction} (moves : Moves session s a t) :
    t.Guarded := by
  have runners := guarded.runners
  have holders := guarded.holders
  have open_ {w : Nat} {before behind : WorkerPhase} (found : s.workers[w]? = some before)
      (live : behind.isGone = false) {queue : List WorkerRequest} :
      (s.moveWorker w behind).isClosed = true → queue = [] := by
    intro closed
    rw [isClosed_moveWorker found live] at closed
    cases closed
  have ready {w : Nat} {before : WorkerPhase} (found : s.workers[w]? = some before)
      (busy : before.request ≠ none) {P : Prop} : s.plan = none → P := fun failed =>
    absurd (guarded.draining failed before (List.mem_of_getElem? found)).1 busy
  have answered (slot : ReplySlot) (request : WorkerRequest) (disowned : s.handle ≠ .owned) :
      ∀ call ∈ request.answer slot s.calls, call.isSettled = true := by
    have settled := guarded.settled disowned
    rwa [settled_answer slot request settled]
  cases moves with
  | infer owned => exact { guarded with settled := fun disowned => absurd owned disowned }
  | enqueue found room =>
      exact { guarded with
        empty := fun closed => absurd (room.symm.trans closed) Bool.false_ne_true
        settled := fun disowned => absurd (guarded.owned found rfl) disowned }
  | refuse found closed =>
      exact { guarded with
        settled := fun disowned => forall_mem_set (guarded.settled disowned) rfl }
  | finish found ready =>
      exact { guarded with
        settled := fun disowned => forall_mem_set (guarded.settled disowned) rfl }
  | abandon found live =>
      exact { guarded with
        settled := fun disowned => forall_mem_set (guarded.settled disowned) rfl }
  | lockReceiver found free =>
      refine guarded.moveWorker found rfl _ ?_ rfl ?_ (fun _ => ⟨rfl, rfl⟩)
        (fun _ => ⟨by simp, by simp⟩) (open_ found rfl) guarded.settled
      · rw [free]
        rfl
      · exact runners
  | take found head loaded =>
      refine guarded.moveWorker found rfl _ ?_ rfl runners
        (fun failed => by rw [failed] at loaded; cases loaded)
        (fun _ => ⟨by simp, by simp⟩) (open_ found rfl) guarded.settled
      exact holders.trans (Nat.le_add_right 1 1)
  | drain found head failed =>
      refine guarded.moveWorker found rfl _ ?_ rfl runners (fun _ => ⟨rfl, rfl⟩)
        (fun _ => ⟨by simp, by simp⟩) (open_ found rfl) (answered _ _)
      exact holders.trans (Nat.le_add_right 1 1)
  | disconnect found disowned =>
      refine guarded.moveWorker found rfl _ ?_ rfl runners (fun _ => ⟨rfl, rfl⟩)
        (fun owned => absurd owned disowned) (open_ found rfl) guarded.settled
      exact holders.trans (Nat.le_add_right 1 1)
  | fail found poisoned =>
      exact guarded.moveWorker found rfl _ holders rfl runners (ready found (by simp [WorkerPhase.request]))
        (fun _ => ⟨by simp, by simp⟩) (open_ found rfl) guarded.settled
  | enter found sane free =>
      refine guarded.moveWorker found rfl _ holders rfl ?_ (ready found (by simp [WorkerPhase.request]))
        (fun _ => ⟨by simp, by simp⟩) (open_ found rfl) guarded.settled
      rw [free, sane]
      rfl
  | compute found loaded =>
      exact guarded.moveWorker found rfl _ holders rfl (runners.trans (Nat.le_add_right 1 1))
        (ready found (by simp [WorkerPhase.request])) (fun _ => ⟨by simp, by simp⟩)
        (open_ found rfl) guarded.settled
  | panic found =>
      have inside : 1 ≤ s.runners := by
        have sum := sum_set WorkerPhase.runs found (.leaving true)
        change _ + 1 = _ + 0 at sum
        rw [InferencePool.runners]
        omega
      have sane : s.poisoned = false := by
        cases poisoned : s.poisoned with
        | false => rfl
        | true =>
            rw [poisoned] at runners
            change s.runners + 1 ≤ 1 at runners
            omega
      refine guarded.moveWorker found rfl _ holders ?_ ?_ (ready found (by simp [WorkerPhase.request]))
        (fun _ => ⟨by simp, by simp⟩) (open_ found rfl) guarded.settled
      · rw [sane]
        rfl
      · change s.runners + 0 + 1 ≤ 1 + 1
        omega
  | reply found =>
      exact guarded.moveWorker found rfl _ holders rfl runners (fun _ => ⟨rfl, rfl⟩)
        (fun _ => ⟨by simp, by simp⟩) (open_ found rfl) (answered _ _)
  | unwind found =>
      exact guarded.moveWorker found rfl _ holders rfl runners
        (ready found (by simp [WorkerPhase.request])) (fun _ => ⟨by simp, by simp⟩)
        (open_ found rfl) (answered _ _)
  | @leave w panicked found =>
      have member := List.mem_of_getElem? found
      have share : (WorkerPhase.gone panicked).panicked = (WorkerPhase.leaving panicked).panicked := by
        cases panicked <;> rfl
      have left := fun (queue : List WorkerRequest) (calls : List InferCall) =>
        @Guarded.moveWorker s w _ guarded found rfl (.gone panicked) s.poisoned queue calls
          holders (by rw [share]) runners
          (fun failed => ⟨rfl, share.trans (guarded.draining failed _ member).2⟩)
          (fun owned => ⟨by simp, fun same => (guarded.staying owned _ member).1 (by
            cases same
            rfl)⟩)
      rw [closeReceiver]
      split
      next closed =>
          refine left _ _ (fun _ => rfl) fun disowned => ?_
          have settled := guarded.settled disowned
          rw [show (s.moveWorker w (.gone panicked)).calls = s.calls from rfl,
            settled_foldl_answer _ settled]
          exact settled
      next open_ => exact left _ _ (fun closed => absurd closed open_) guarded.settled
  | drop owned settled =>
      exact { guarded with
        staying := fun owned => by cases owned
        settled := fun _ => settled
        joined := fun done => by cases done }
  | join dropping closed =>
      have settled := guarded.settled (by rw [dropping]; simp)
      exact { guarded with
        staying := fun owned => by cases owned
        settled := fun _ => settled
        joined := fun _ => closed }

end Guarded

end InferencePool

end Webfang
