import Webfang.Embedding.InferencePoolAnswers

/-!
# Progress of the inference pool

Every move takes from a measure to which only the start of a call adds, and where no call and no
worker can move, no call waits: callers are not left hanging, whatever panics or is dropped.  After
a panic nothing is inferred any more.
-/

namespace Webfang

open StepSystem Parties

namespace InferencePool

variable {session : OnnxSession} {s t : InferencePool}

/-! ## The measure -/

/-- The moves that a worker has before it, besides those for requests in the channel. -/
def workerWeight : WorkerPhase → Nat
  | .receiving => 3
  | .holding => 2
  | .serving _ => 6
  | .running _ => 5
  | .replying _ _ => 4
  | .unwinding _ => 2
  | .leaving _ => 1
  | .gone _ => 0

def callWeight : InferCall → Nat
  | .sending _ => 7
  | .waiting _ _ => 1
  | _ => 0

def handleWeight : PoolHandle → Nat
  | .owned => 2
  | .dropping => 1
  | .joined => 0

def weight (s : InferencePool) : Nat :=
  5 * s.queue.length + (s.calls.map callWeight).sum + (s.workers.map workerWeight).sum +
    handleWeight s.handle

theorem callWeight_answer (slot : ReplySlot) (call : InferCall) :
    callWeight (call.answer slot) = callWeight call := by
  unfold InferCall.answer
  split <;> rfl

/-- Every move takes from the weight, and the start of a call adds to it. -/
theorem weight_of_moves {a : PoolAction} (moves : Moves session s a t) :
    t.weight + 1 ≤ s.weight + if a.inferred.isSome then 8 else 0 := by
  have calls {i : Nat} {call : InferCall} (found : s.calls[i]? = some call) (moved : InferCall) :=
    sum_set callWeight found moved
  have workers {w : Nat} {worker : WorkerPhase} (found : s.workers[w]? = some worker)
      (moved : WorkerPhase) := sum_set workerWeight found moved
  cases moves with
  | infer owned =>
      have more := sum_concat callWeight s.calls (.sending ‹_›)
      simp only [weight, more, callWeight, PoolAction.inferred]
      exact Nat.le_of_eq (by simp; omega)
  | @enqueue i input found room =>
      have less := calls found (.waiting input .unanswered)
      simp only [callWeight] at less
      simp only [weight, moveCall, List.length_append, List.length_singleton]
      omega
  | @refuse i input found closed =>
      have less := calls found (.returned input (.error channelClosed))
      simp only [callWeight] at less
      simp only [weight, moveCall]
      omega
  | @finish i input slot result found ready =>
      have less := calls found (.returned input result)
      simp only [callWeight] at less
      simp only [weight, moveCall]
      omega
  | @abandon i call found live =>
      have less := calls found (.dropped call.input)
      have some_ : 1 ≤ callWeight call := by
        cases call with
        | sending | waiting => simp [callWeight]
        | returned | dropped => cases live
      change _ + callWeight call = _ + 0 at less
      simp only [weight, moveCall]
      omega
  | lockReceiver found free =>
      have less := workers found .holding
      simp only [workerWeight] at less
      simp only [weight, moveWorker]
      omega
  | @take w request rest found head ready =>
      have less := workers found (.serving request)
      simp only [workerWeight] at less
      simp only [weight, moveWorker, head, List.length_cons]
      omega
  | @drain w request rest found head failed =>
      have less := workers found .receiving
      have same := map_answer callWeight_answer .closed s.calls request
      simp only [workerWeight] at less
      simp only [weight, answer, moveWorker, same, head, List.length_cons]
      omega
  | disconnect found disowned =>
      have less := workers found (.leaving false)
      simp only [workerWeight] at less
      simp only [weight, moveWorker]
      omega
  | @fail w request found poisoned =>
      have less := workers found (.replying request (.error sessionPoisoned))
      simp only [workerWeight] at less
      simp only [weight, moveWorker]
      omega
  | @enter w request found sane free =>
      have less := workers found (.running request)
      simp only [workerWeight] at less
      simp only [weight, moveWorker]
      omega
  | @compute w request plan found ready =>
      have less := workers found
        (.replying request (session.runSessionInference request.input plan))
      simp only [workerWeight] at less
      simp only [weight, moveWorker]
      omega
  | @panic w request found =>
      have less := workers found (.unwinding request)
      simp only [workerWeight] at less
      simp only [weight, moveWorker]
      omega
  | @reply w request result found =>
      have less := workers found .receiving
      have same := map_answer callWeight_answer (.sent result) s.calls request
      simp only [workerWeight] at less
      simp only [weight, answer, moveWorker, same]
      omega
  | @unwind w request found =>
      have less := workers found (.leaving true)
      have same := map_answer callWeight_answer .closed s.calls request
      simp only [workerWeight] at less
      simp only [weight, answer, moveWorker, same]
      omega
  | @leave w panicked found =>
      have less := workers found (.gone panicked)
      have same := map_foldl_answer callWeight_answer s.queue s.calls
      simp only [workerWeight] at less
      rw [closeReceiver]
      split
      · simp only [weight, moveWorker, same, List.length_nil]
        omega
      · simp only [weight, moveWorker]
        omega
  | drop owned settled =>
      simp only [weight, owned, handleWeight]
      omega
  | join dropping closed =>
      simp only [weight, dropping, handleWeight]
      omega

/-! ## Where nothing moves -/

/-- No call, no worker and no `Drop` under way can move. -/
def Stuck (session : OnnxSession) (s : InferencePool) : Prop :=
  ∀ a, a.isInternal = true → poolStep session s a = none

/-- The session is free: a worker that runs can end. -/
theorem Stuck.runners_eq_zero (stuck : Stuck session s) (guarded : s.Guarded) : s.runners = 0 := by
  refine sum_eq_zero_iff.mpr fun worker member => ?_
  cases worker with
  | running request =>
      obtain ⟨w, found⟩ := List.mem_iff_getElem?.mp member
      have still := stuck (.compute w) rfl
      cases plan : s.plan with
      | none =>
          have idle := (guarded.draining plan _ member).1
          cases idle
      | some loaded =>
          simp only [poolStep, found, plan] at still
          cases still
  | _ => rfl

/-- A worker that is neither at the receiver nor gone can move. -/
theorem Stuck.worker (stuck : Stuck session s) (guarded : s.Guarded) {worker : WorkerPhase}
    (member : worker ∈ s.workers) :
    worker = .receiving ∨ worker = .holding ∨ worker.isGone = true := by
  obtain ⟨w, found⟩ := List.mem_iff_getElem?.mp member
  have free := stuck.runners_eq_zero guarded
  cases worker with
  | receiving => exact .inl rfl
  | holding => exact .inr (.inl rfl)
  | gone panicked => exact .inr (.inr rfl)
  | serving request =>
      have still := stuck (.lockSession w) rfl
      simp only [poolStep, lockSession, found, free] at still
      split at still <;> cases still
  | running request =>
      have busy := sum_eq_zero_iff.mp free _ member
      cases busy
  | replying request result =>
      have still := stuck (.reply w) rfl
      simp only [poolStep, found] at still
      cases still
  | unwinding request =>
      have still := stuck (.unwind w) rfl
      simp only [poolStep, found] at still
      cases still
  | leaving panicked =>
      have still := stuck (.leave w) rfl
      simp only [poolStep, found] at still
      cases still

/-- With a worker left, one is in `blocking_recv`, and there is nothing to receive. -/
theorem Stuck.of_open (stuck : Stuck session s) (guarded : s.Guarded)
    (open_ : s.isClosed = false) : s.queue = [] ∧ s.handle = .owned := by
  have waits {w : Nat} (found : s.workers[w]? = some .holding) :
      s.queue = [] ∧ s.handle = .owned := by
    have still := stuck (.recv w) rfl
    simp only [poolStep, recv, found] at still
    cases queue : s.queue with
    | nil =>
        rw [queue] at still
        simp only at still
        split at still
        next owned => exact ⟨rfl, owned⟩
        next => cases still
    | cons request rest =>
        rw [queue] at still
        simp only at still
        split at still <;> cases still
  have left : ∃ worker ∈ s.workers, worker.isGone ≠ true := by
    have some_ := List.all_eq_false.mp open_
    exact some_
  obtain ⟨worker, member, live⟩ := left
  rcases stuck.worker guarded member with rfl | rfl | gone
  · obtain ⟨w, found⟩ := List.mem_iff_getElem?.mp member
    have still := stuck (.lockReceiver w) rfl
    simp only [poolStep, found] at still
    split at still
    · cases still
    next held =>
        -- the lock that it waits for is held by another worker
        by_contra busy
        apply held
        refine sum_eq_zero_iff.mpr fun other inside => ?_
        cases other with
        | holding =>
            obtain ⟨v, there⟩ := List.mem_iff_getElem?.mp inside
            exact absurd (waits there) busy
        | _ => rfl
  · obtain ⟨w, found⟩ := List.mem_iff_getElem?.mp member
    exact waits found
  · exact absurd gone live

/-- No request is left anywhere. -/
theorem Stuck.underWay_eq_nil (stuck : Stuck session s) (guarded : s.Guarded) : s.underWay = [] := by
  have empty : s.queue = [] := by
    cases closed : s.isClosed with
    | true => exact guarded.empty closed
    | false => exact (stuck.of_open guarded closed).1
  rw [underWay, empty, List.nil_append, List.filterMap_eq_nil_iff]
  intro worker member
  rcases stuck.worker guarded member with rfl | rfl | gone
  · rfl
  · rfl
  · cases worker with
    | gone panicked => rfl
    | _ => cases gone

theorem Stuck.settled (stuck : Stuck session s) (sound : Sound session s) :
    ∀ call ∈ s.calls, call.isSettled = true := by
  intro call member
  obtain ⟨i, found⟩ := List.mem_iff_getElem?.mp member
  have finishes {input : ModelInput} {slot : ReplySlot} {result : InferResult}
      (here : s.calls[i]? = some (.waiting input slot)) (ready : slot.result = some result) :
      False := by
    have still := stuck (.finish i) rfl
    simp only [poolStep, here, ready, Option.map_some] at still
    cases still
  cases call with
  | returned input result => rfl
  | dropped input => rfl
  | sending input =>
      have still := stuck (.send i) rfl
      simp only [poolStep, send, found] at still
      split at still
      · cases still
      next open_ =>
          have empty := (stuck.of_open sound.guarded (Bool.eq_false_of_not_eq_true open_)).1
          rw [empty, List.length_nil, if_pos sound.guarded.capacity] at still
          cases still
  | waiting input slot =>
      cases slot with
      | unanswered =>
          have inside := sound.linear.exchanges.2.2 i input found
          rw [stuck.underWay_eq_nil sound.guarded] at inside
          cases inside
      | sent result => exact (finishes found rfl).elim
      | closed => exact (finishes found rfl).elim

theorem Stuck.shut (stuck : Stuck session s) (sound : Sound session s)
    (disowned : s.handle ≠ .owned) : s.handle = .joined ∧ s.isClosed = true := by
  have closed : s.isClosed = true := by
    by_contra open_
    exact disowned (stuck.of_open sound.guarded (Bool.eq_false_of_not_eq_true open_)).2
  refine ⟨?_, closed⟩
  have still := stuck .join rfl
  simp only [poolStep, closed, and_true] at still
  cases handle : s.handle with
  | owned => exact absurd handle disowned
  | joined => rfl
  | dropping =>
      rw [handle, if_pos rfl] at still
      cases still

/-! ## Behind a panic -/

/-- What a call gets that starts behind the panic of a worker. -/
def Refusal (s : InferencePool) (result : InferResult) : Prop :=
  (2 ≤ s.workerCount ∧ result = .error sessionPoisoned) ∨
    (s.workerCount = 1 ∧ (result = .error responseDropped ∨ result = .error channelClosed))

/-- The session is poisoned, and no worker infers for a call from the `k`-th on. -/
structure Contained (k : Nat) (s : InferencePool) : Prop where
  poisoned : s.poisoned = true
  refused : ∀ i call, k ≤ i → s.calls[i]? = some call → ∀ result, outcome call = some result →
    s.Refusal result
  waiting : ∀ worker ∈ s.workers, ∀ request, worker.request = some request → k ≤ request.call →
    worker = .serving request ∨
      (2 ≤ s.workerCount ∧ worker = .replying request (.error sessionPoisoned))

section Contained

variable {k : Nat}

theorem Guarded.not_running (guarded : s.Guarded) (poisoned : s.poisoned = true) {w : Nat}
    {request : WorkerRequest} (found : s.workers[w]? = some (.running request)) : False := by
  have sum := sum_set WorkerPhase.runs found .receiving
  change _ + 1 = _ + 0 at sum
  have runners := guarded.runners
  rw [InferencePool.runners, poisoned] at runners
  change _ + 1 ≤ 1 at runners
  omega

theorem Guarded.ready_of_poisoned (guarded : s.Guarded) (poisoned : s.poisoned = true) :
    s.plan.isSome := by
  cases plan : s.plan with
  | some loaded => rfl
  | none =>
      have quiet := sum_eq_zero_iff.mpr fun worker member =>
        (guarded.draining plan worker member).2
      rw [guarded.panicked, poisoned] at quiet
      cases quiet

theorem Contained.moveCall (contained : Contained k s) {i : Nat} {call : InferCall}
    (fits : k ≤ i → ∀ result, outcome call = some result → s.Refusal result)
    {queue : List WorkerRequest} :
    Contained k { s.moveCall i call with queue := queue } where
  poisoned := contained.poisoned
  refused j other late found := by
    rw [show ({ s.moveCall i call with queue := queue } : InferencePool).calls =
      s.calls.set i call from rfl, List.getElem?_set] at found
    split at found
    next same =>
        split at found
        · cases found
          exact fits (same ▸ late)
        · cases found
    next => exact contained.refused j other late found
  waiting := contained.waiting

theorem Contained.moveWorker (contained : Contained k s) (w : Nat) {worker : WorkerPhase}
    (fits : ∀ request, worker.request = some request → k ≤ request.call →
      worker = .serving request ∨
        (2 ≤ s.workerCount ∧ worker = .replying request (.error sessionPoisoned)))
    {queue : List WorkerRequest} :
    Contained k { s.moveWorker w worker with queue := queue } where
  poisoned := contained.poisoned
  refused := contained.refused
  waiting := forall_mem_set contained.waiting fits

theorem Contained.answer (contained : Contained k s) {slot : ReplySlot} {request : WorkerRequest}
    (fits : k ≤ request.call → ∀ result, slot.result = some result → s.Refusal result) :
    Contained k (s.answer slot request) where
  poisoned := contained.poisoned
  refused i call late found := by
    rw [InferencePool.answer, WorkerRequest.answer, List.getElem?_modify] at found
    obtain ⟨before, there, same⟩ := Option.map_eq_some_iff.mp found
    split at same
    next here =>
        subst same
        intro result has
        unfold InferCall.answer at has
        split at has
        · exact fits (here ▸ late) result has
        · exact contained.refused i _ late there result has
    next =>
        subst same
        exact contained.refused i _ late there
  waiting := contained.waiting

theorem Contained.foldl_answer (contained : Contained k s) (single : s.workerCount = 1)
    (requests : List WorkerRequest) :
    Contained k { s with
      queue := [], calls := requests.foldl (WorkerRequest.answer .closed) s.calls } := by
  induction requests generalizing s with
  | nil => exact ⟨contained.poisoned, contained.refused, contained.waiting⟩
  | cons request requests ih =>
      have here : Contained k (s.answer .closed request) := by
        refine contained.answer fun _ result same => ?_
        cases same
        exact .inr ⟨single, .inl rfl⟩
      exact ih here single

theorem Contained.step (contained : Contained k s) (guarded : s.Guarded) {a : PoolAction}
    (moves : Moves session s a t) : Contained k t := by
  have poisoned := contained.poisoned
  cases moves with
  | infer owned =>
      refine ⟨poisoned, fun i call late found => ?_, contained.waiting⟩
      rw [List.getElem?_append] at found
      split at found
      · exact contained.refused i call late found
      · rw [List.getElem?_singleton] at found
        split at found
        · cases found
          exact fun _ none => by cases none
        · cases found
  | enqueue found room => exact contained.moveCall fun _ _ none => by cases none
  | refuse found closed =>
      refine contained.moveCall fun _ result same => ?_
      cases same
      have single := (guarded.of_isClosed (guarded.owned found rfl) closed).2.2
      exact .inr ⟨single, .inr rfl⟩
  | finish found ready =>
      refine contained.moveCall fun late result same => ?_
      cases same
      exact contained.refused _ _ late found _ ready
  | abandon found live => exact contained.moveCall fun _ _ none => by cases none
  | lockReceiver found free => exact contained.moveWorker _ fun _ none => by cases none
  | take found head ready =>
      refine contained.moveWorker _ fun request same _ => ?_
      cases same
      exact .inl rfl
  | drain found head failed =>
      have ready := guarded.ready_of_poisoned poisoned
      rw [failed] at ready
      cases ready
  | disconnect found disowned => exact contained.moveWorker _ fun _ none => by cases none
  | fail found _ =>
      refine contained.moveWorker _ fun request same _ => ?_
      cases same
      exact .inr ⟨guarded.two_le found rfl (by simp [WorkerPhase.request]) poisoned, rfl⟩
  | enter found sane free => cases sane.symm.trans poisoned
  | compute found ready => exact (guarded.not_running poisoned found).elim
  | panic found => exact (guarded.not_running poisoned found).elim
  | @reply w request result found =>
      have moved : Contained k (s.moveWorker w .receiving) :=
        contained.moveWorker w fun _ none => by cases none
      refine moved.answer fun late other same => ?_
      cases same
      rcases contained.waiting _ (List.mem_of_getElem? found) request rfl late with
        serving | ⟨many, replying⟩
      · cases serving
      · cases replying
        exact .inl ⟨many, rfl⟩
  | @unwind w request found =>
      have moved : Contained k (s.moveWorker w (.leaving true)) :=
        contained.moveWorker w fun _ none => by cases none
      refine moved.answer fun late _ _ => ?_
      rcases contained.waiting _ (List.mem_of_getElem? found) request rfl late with
        serving | ⟨_, replying⟩
      · cases serving
      · cases replying
  | @leave w panicked found =>
      have moved : Contained k (s.moveWorker w (.gone panicked)) :=
        contained.moveWorker w fun _ none => by cases none
      have behind := guarded.step (.leave found : Moves session s _ _)
      rw [closeReceiver] at behind ⊢
      split at behind
      next closed =>
          rw [if_pos closed]
          by_cases owned : s.handle = .owned
          · exact moved.foldl_answer (behind.of_isClosed owned closed).2.2 _
          · have settled := settled_foldl_answer s.queue (guarded.settled owned)
            refine ⟨poisoned, ?_, moved.waiting⟩
            rw [show (s.moveWorker w (.gone panicked)).calls = s.calls from rfl,
              show (s.moveWorker w (.gone panicked)).queue = s.queue from rfl, settled]
            exact contained.refused
      next open_ =>
          rw [if_neg open_]
          exact moved
  | drop owned settled => exact ⟨poisoned, contained.refused, contained.waiting⟩
  | join dropping closed => exact ⟨poisoned, contained.refused, contained.waiting⟩

/-- A panic contains what comes behind it. -/
theorem Linear.contained_of_panic (linear : Linear s.calls s.underWay) {w : Nat}
    (moves : Moves session s (.panic w) t) : Contained s.calls.length t := by
  cases moves with
  | @panic _ request found =>
      refine ⟨rfl, fun i call late there => ?_, ?_⟩
      · have inside := (List.getElem?_eq_some_iff.mp there).1
        exact absurd inside (Nat.not_lt.mpr late)
      · have early {worker : WorkerPhase} (member : worker ∈ s.workers) {other : WorkerRequest}
            (has : worker.request = some other) : ¬ s.calls.length ≤ other.call := by
          obtain ⟨v, there⟩ := List.mem_iff_getElem?.mp member
          obtain ⟨_, expected, -⟩ := linear.expected other (mem_underWay there has)
          exact Nat.not_le.mpr (List.getElem?_eq_some_iff.mp expected).1
        refine forall_mem_set (fun worker member other has late => ?_) fun other has late => ?_
        · exact absurd late (early member has)
        · exact absurd late (early (List.mem_of_getElem? found) has)

end Contained

/-! ## Whole runs -/

/-- No run is longer than the calls it starts allow, and where it ends because nothing can move
every call has returned or was given up, and a pool that was dropped has joined its workers. -/
theorem settles_of_execute (session : OnnxSession) (parallelism : Nat)
    (prepared : Except SemanticError InputPlan) {as : List PoolAction} {t : InferencePool}
    (run : execute (poolStep session) (new parallelism prepared) as = some t) :
    as.length ≤ 8 * as.countP (·.inferred.isSome) + 3 * max (parallelism - 1) 1 + 2 ∧
      (Stuck session t → (∀ call ∈ t.calls, call.isSettled = true) ∧
        (t.handle ≠ .owned → t.handle = .joined ∧ t.isClosed = true)) := by
  have sound : Sound session t := sound_of_execute run
  refine ⟨?_, fun stuck => ⟨stuck.settled sound, stuck.shut sound⟩⟩
  have bound := length_add_measure_le_countP (I := fun _ => True) (fun _ _ _ _ _ => True.intro)
    (fun _ _ _ _ next => weight_of_moves (moves_of_step next)) run True.intro
  have start : (new parallelism prepared).weight ≤ 3 * max (parallelism - 1) 1 + 2 := by
    have threads : (if prepared.toOption.isSome then max (parallelism - 1) 1 else 1) ≤
        max (parallelism - 1) 1 := by
      split <;> omega
    have each (n : Nat) : ((List.replicate n WorkerPhase.receiving).map workerWeight).sum = n * 3 := by
      rw [List.map_replicate, List.sum_replicate]
      rfl
    simp only [weight, new, each, List.length_nil, List.map_nil, List.sum_nil, handleWeight]
    omega
  omega

theorem settles_untilPanic : ∃ t,
    execute (poolStep countingSession) (new 3 requiredPlan) untilPanic = some t ∧
      untilPanic.length ≤ 8 * untilPanic.countP (·.inferred.isSome) + 3 * max (3 - 1) 1 + 2 ∧
        (Stuck countingSession t → (∀ call ∈ t.calls, call.isSettled = true) ∧
          (t.handle ≠ .owned → t.handle = .joined ∧ t.isClosed = true)) :=
  ⟨_, rfl, settles_of_execute countingSession 3 requiredPlan rfl⟩

/-- One worker panics at most.  Behind its panic nothing is inferred; every call that starts then
and returns gets an error, which with a second worker is that of the poisoned session. -/
theorem contained_of_execute (session : OnnxSession) (parallelism : Nat)
    (prepared : Except SemanticError InputPlan) {as bs : List PoolAction} {w : Nat}
    {s t : InferencePool}
    (before : execute (poolStep session) (new parallelism prepared) as = some s)
    (run : execute (poolStep session) s (.panic w :: bs) = some t) :
    (∀ a ∈ as ++ bs, a.isPanic = false) ∧ (∀ v, .compute v ∉ bs) ∧
      ∀ i input result, s.calls.length ≤ i → t.calls[i]? = some (.returned input result) →
        t.Refusal result := by
  have sound : Sound session s := sound_of_execute before
  obtain ⟨m, next, rest⟩ := execute_cons_eq_some.mp run
  have moves := moves_of_step next
  have behind {cs : List PoolAction} {u : InferencePool}
      (later : execute (poolStep session) m cs = some u) :
      Contained s.calls.length u ∧ Sound session u := by
    refine execute_invariant (I := fun u => Contained s.calls.length u ∧ Sound session u)
      (fun u a u' both onward => ?_) later
      ⟨sound.linear.contained_of_panic moves, sound.step next⟩
    exact ⟨both.1.step both.2.guarded (moves_of_step onward), both.2.step onward⟩
  refine ⟨?_, ?_, ?_⟩
  · have all := countP_isPanic_of_execute (sound_new parallelism prepared)
      (execute_append_eq_some.mpr ⟨s, before, run⟩)
    have within := Bool.toNat_le t.poisoned
    change t.poisoned.toNat = 0 + _ at all
    rw [List.countP_append, List.countP_cons, if_pos (show (PoolAction.panic w).isPanic from rfl)]
      at all
    intro a member
    apply Bool.eq_false_of_not_eq_true
    intro panics
    rcases List.mem_append.mp member with early | late
    · have positive := List.countP_pos_iff.mpr ⟨a, early, panics⟩
      omega
    · have positive := List.countP_pos_iff.mpr ⟨a, late, panics⟩
      omega
  · intro v member
    obtain ⟨cs, ds, rfl⟩ := List.append_of_mem member
    obtain ⟨u, early, late⟩ := execute_append_eq_some.mp rest
    obtain ⟨u', next', -⟩ := execute_cons_eq_some.mp late
    obtain ⟨held, sane⟩ := behind early
    cases moves_of_step next' with
    | compute found ready => exact sane.guarded.not_running held.poisoned found
  · intro i input result late found
    exact (behind rest).1.refused i _ late found result rfl

/-- The second call waits for the worker that panics. -/
def atPanic : InferencePool where
  workerCount := 2
  plan := some ⟨InputPlan.REQUIRED⟩
  handle := .owned
  poisoned := false
  queue := []
  calls := [.returned ⟨[1], [1], [0]⟩ (.ok [2]), .waiting ⟨[2], [1], [0]⟩ .unanswered]
  workers := [.receiving, .running ⟨1, ⟨[2], [1], [0]⟩⟩]

def atEnd : InferencePool where
  workerCount := 2
  plan := some ⟨InputPlan.REQUIRED⟩
  handle := .joined
  poisoned := true
  queue := []
  calls := [.returned ⟨[1], [1], [0]⟩ (.ok [2]),
    .returned ⟨[2], [1], [0]⟩ (.error responseDropped),
    .returned ⟨[3], [1], [0]⟩ (.error sessionPoisoned)]
  workers := [.gone false, .gone true]

theorem contained_behindPanic :
    (∀ a ∈ untilPanic ++ behindPanic, a.isPanic = false) ∧ (∀ v, .compute v ∉ behindPanic) ∧
      ∀ i input result, atPanic.calls.length ≤ i →
        atEnd.calls[i]? = some (.returned input result) → atEnd.Refusal result :=
  @contained_of_execute countingSession 3 requiredPlan untilPanic behindPanic 1 atPanic atEnd rfl rfl

end InferencePool

end Webfang
