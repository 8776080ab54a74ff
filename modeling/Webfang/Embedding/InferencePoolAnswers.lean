import Webfang.Embedding.InferencePoolRuns

/-!
# Answers of the inference pool

An answer is the inference of the call's own input unless a worker has panicked or there is no
session.  At most one worker panics, and where nothing can move every call has its answer.
-/

namespace Webfang

open StepSystem Parties

namespace InferencePool

variable {session : OnnxSession} {s t : InferencePool}

/-! ## Answers -/

/-- The answers that a call can get in the state. -/
def Fits (session : OnnxSession) (s : InferencePool) (input : ModelInput) (result : InferResult) :
    Prop :=
  (∃ plan, s.plan = some plan ∧ result = session.runSessionInference input plan) ∨
    ((s.plan = none ∨ s.poisoned = true) ∧ result = .error responseDropped) ∨
    (s.poisoned = true ∧ 2 ≤ s.workerCount ∧ result = .error sessionPoisoned) ∨
    (s.poisoned = true ∧ s.workerCount = 1 ∧ result = .error channelClosed)

/-- The answer that a call has or finds when it looks. -/
def outcome : InferCall → Option InferResult
  | .waiting _ slot => slot.result
  | .returned _ result => some result
  | _ => none

structure Answered (session : OnnxSession) (s : InferencePool) : Prop where
  calls : ∀ call ∈ s.calls, ∀ result, outcome call = some result →
    Fits session s call.input result
  replies : ∀ worker ∈ s.workers, ∀ request result, worker = .replying request result →
    Fits session s request.input result

section Answered

theorem answered_new (parallelism : Nat) (prepared : Except SemanticError InputPlan) :
    Answered session (new parallelism prepared) where
  calls _ member := absurd member List.not_mem_nil
  replies worker member request result same := by
    cases same.symm.trans (List.eq_of_mem_replicate member)

theorem forall_mem_modify {α : Type} {P : α → Prop} {xs : List α} {f : α → α} {i : Nat}
    (all : ∀ x ∈ xs, P x) (here : ∀ x, xs[i]? = some x → P (f x)) : ∀ x ∈ xs.modify i f, P x := by
  intro y member
  obtain ⟨j, found⟩ := List.mem_iff_getElem?.mp member
  rw [List.getElem?_modify] at found
  obtain ⟨x, there, rfl⟩ := Option.map_eq_some_iff.mp found
  split
  next same => exact here x (same ▸ there)
  next => exact all x (List.mem_of_getElem? there)

/-- What is answered at a request's end is answered to its call, for its input. -/
theorem forall_mem_answer {P : InferCall → Prop} (linear : Linear s.calls s.underWay)
    {request : WorkerRequest} (member : request ∈ s.underWay) (slot : ReplySlot)
    (all : ∀ call ∈ s.calls, P call) (here : P (.waiting request.input slot)) :
    ∀ call ∈ request.answer slot s.calls, P call := by
  refine forall_mem_modify all fun call found => ?_
  obtain ⟨call', found', expects⟩ := linear.expected request member
  obtain rfl := Option.some.inj (found.symm.trans found')
  rcases expects with rfl | rfl
  · exact here
  · exact all _ (List.mem_of_getElem? found)

theorem mem_underWay {w : Nat} {worker : WorkerPhase} {request : WorkerRequest}
    (found : s.workers[w]? = some worker) (has : worker.request = some request) :
    request ∈ s.underWay := by
  apply List.mem_append_right
  exact List.mem_filterMap.mpr ⟨worker, List.mem_of_getElem? found, has⟩

/-- A state with the same session, where no answer has changed. -/
theorem Fits.mono {input : ModelInput} {result : InferResult} (fits : Fits session s input result)
    (plan : t.plan = s.plan) (count : t.workerCount = s.workerCount)
    (poisoned : s.poisoned = true → t.poisoned = true) : Fits session t input result := by
  rw [Fits, plan, count]
  refine fits.imp_right (Or.imp ?_ (Or.imp ?_ ?_))
  · exact And.imp_left (Or.imp_right poisoned)
  · exact And.imp_left poisoned
  · exact And.imp_left poisoned

theorem Answered.moveCall (answered : Answered session s) (i : Nat) (call : InferCall)
    (fits : ∀ result, outcome call = some result → Fits session s call.input result) :
    Answered session (s.moveCall i call) where
  calls := forall_mem_set answered.calls fits
  replies := answered.replies

theorem Answered.moveWorker (answered : Answered session s) (w : Nat) (worker : WorkerPhase)
    (fits : ∀ request result, worker = .replying request result →
      Fits session s request.input result) : Answered session (s.moveWorker w worker) where
  calls := answered.calls
  replies := forall_mem_set answered.replies fits

/-- Panicked is the worker, and poisoned the session. -/
theorem Guarded.poisoned_of_panicked (guarded : s.Guarded) {w : Nat} {worker : WorkerPhase}
    (found : s.workers[w]? = some worker) (panicked : worker.panicked = 1) : s.poisoned = true := by
  have sum := sum_set WorkerPhase.panicked found .receiving
  have here := guarded.panicked
  have within := Bool.toNat_le s.poisoned
  change _ + worker.panicked = _ + 0 at sum
  apply Bool.toNat_eq_one.mp
  omega

/-- Nothing but a panic closes the receiver of a pool that is owned. -/
theorem Answered.foldl_answer (answered : Answered session s) (poisoned : s.poisoned = true)
    (requests : List WorkerRequest) :
    ∀ call ∈ requests.foldl (WorkerRequest.answer .closed) s.calls, ∀ result,
      outcome call = some result → Fits session s call.input result := by
  have step (calls : List InferCall) (request : WorkerRequest)
      (all : ∀ call ∈ calls, ∀ result, outcome call = some result →
        Fits session s call.input result) :
      ∀ call ∈ request.answer .closed calls, ∀ result, outcome call = some result →
        Fits session s call.input result := by
    refine forall_mem_modify all fun call found result same => ?_
    have before := all call (List.mem_of_getElem? found) result
    unfold InferCall.answer at same ⊢
    split at same
    · cases same
      exact .inr (.inl ⟨.inr poisoned, rfl⟩)
    · exact before same
  have all := answered.calls
  generalize s.calls = calls at all ⊢
  induction requests generalizing calls with
  | nil => exact all
  | cons request requests ih => exact ih _ (step calls request all)

theorem Answered.step (answered : Answered session s) (guarded : s.Guarded)
    (linear : Linear s.calls s.underWay) {a : PoolAction} (moves : Moves session s a t) :
    Answered session t := by
  cases moves with
  | infer owned =>
      exact ⟨forall_mem_concat answered.calls (fun _ none => by cases none), answered.replies⟩
  | enqueue found room =>
      exact ⟨(answered.moveCall _ _ fun _ none => by cases none).calls, answered.replies⟩
  | refuse found closed =>
      refine answered.moveCall _ _ fun result same => ?_
      cases same
      obtain ⟨poisoned, -, single⟩ := guarded.of_isClosed (guarded.owned found rfl) closed
      exact .inr (.inr (.inr ⟨poisoned, single, rfl⟩))
  | finish found ready =>
      refine answered.moveCall _ _ fun result same => ?_
      cases same
      exact answered.calls _ (List.mem_of_getElem? found) _ ready
  | abandon found live => exact answered.moveCall _ _ fun _ none => by cases none
  | lockReceiver found free => exact answered.moveWorker _ _ fun _ _ same => by cases same
  | take found head ready =>
      exact ⟨answered.calls, (answered.moveWorker _ _ fun _ _ same => by cases same).replies⟩
  | @drain w request rest found head failed =>
      refine ⟨?_, forall_mem_set answered.replies fun _ _ same => by cases same⟩
      refine forall_mem_answer linear (List.mem_append_left _ (head ▸ List.mem_cons_self))
        .closed answered.calls fun result same => ?_
      cases same
      exact .inr (.inl ⟨.inl failed, rfl⟩)
  | disconnect found disowned => exact answered.moveWorker _ _ fun _ _ same => by cases same
  | fail found poisoned =>
      refine answered.moveWorker _ _ fun _ _ same => ?_
      cases same
      have two := guarded.two_le found rfl (by simp [WorkerPhase.request]) poisoned
      exact .inr (.inr (.inl ⟨poisoned, two, rfl⟩))
  | enter found sane free => exact answered.moveWorker _ _ fun _ _ same => by cases same
  | compute found ready =>
      refine answered.moveWorker _ _ fun _ _ same => ?_
      cases same
      exact .inl ⟨_, ready, rfl⟩
  | @panic w request found =>
      have moved := answered.moveWorker w (.unwinding request) fun _ _ same => by cases same
      exact ⟨fun call member result same =>
          (moved.calls call member result same).mono rfl rfl fun _ => rfl,
        fun worker member request result same =>
          (moved.replies worker member request result same).mono rfl rfl fun _ => rfl⟩
  | reply found =>
      refine ⟨?_, forall_mem_set answered.replies fun _ _ same => by cases same⟩
      refine forall_mem_answer linear (mem_underWay found rfl) _ answered.calls
        fun result same => ?_
      cases same
      exact answered.replies _ (List.mem_of_getElem? found) _ _ rfl
  | unwind found =>
      refine ⟨?_, forall_mem_set answered.replies fun _ _ same => by cases same⟩
      refine forall_mem_answer linear (mem_underWay found rfl) _ answered.calls
        fun result same => ?_
      cases same
      exact .inr (.inl ⟨.inr (guarded.poisoned_of_panicked found rfl), rfl⟩)
  | @leave w panicked found =>
      have moved := answered.moveWorker w (.gone panicked) fun _ _ same => by cases same
      rw [closeReceiver]
      split
      next closed =>
          refine ⟨?_, moved.replies⟩
          by_cases owned : s.handle = .owned
          · have member := List.mem_of_getElem? found
            have panic : panicked = true :=
              Bool.eq_true_of_not_eq_false fun calm =>
                (guarded.staying owned _ member).1 (congrArg WorkerPhase.leaving calm)
            subst panic
            exact moved.foldl_answer (guarded.poisoned_of_panicked found rfl) _
          · have settled := guarded.settled owned
            rw [show (s.moveWorker w (.gone panicked)).calls = s.calls from rfl,
              settled_foldl_answer _ settled]
            exact moved.calls
      next => exact moved
  | drop owned settled => exact ⟨answered.calls, answered.replies⟩
  | join dropping closed => exact ⟨answered.calls, answered.replies⟩

end Answered

/-! ## Whole runs -/

/-- What every interleaving keeps. -/
structure Sound (session : OnnxSession) (s : InferencePool) : Prop where
  linear : Linear s.calls s.underWay
  guarded : s.Guarded
  answered : Answered session s

theorem sound_new (parallelism : Nat) (prepared : Except SemanticError InputPlan) :
    Sound session (new parallelism prepared) :=
  ⟨linear_new parallelism prepared, guarded_new parallelism prepared,
    answered_new parallelism prepared⟩

theorem Sound.step (sound : Sound session s) {a : PoolAction}
    (step : poolStep session s a = some t) : Sound session t :=
  have moves := moves_of_step step
  ⟨sound.linear.step moves, sound.guarded.step moves,
    sound.answered.step sound.guarded sound.linear moves⟩

theorem sound_of_execute {parallelism : Nat} {prepared : Except SemanticError InputPlan}
    {as : List PoolAction} (run : execute (poolStep session) (new parallelism prepared) as = some t) :
    Sound session t :=
  execute_invariant (I := Sound session) (fun _ _ _ sound next => sound.step next) run
    (sound_new parallelism prepared)

/-- The capacity and the plan are those of the start. -/
theorem fixed_of_execute {as : List PoolAction} (run : execute (poolStep session) s as = some t) :
    t.workerCount = s.workerCount ∧ t.plan = s.plan := by
  refine execute_invariant (I := fun u => u.workerCount = s.workerCount ∧ u.plan = s.plan)
    (fun u a u' fixed next => ?_) run ⟨rfl, rfl⟩
  cases moves_of_step next with
  | leave found =>
      rw [closeReceiver]
      split <;> exact fixed
  | _ => exact fixed


theorem map_modify_same {α β : Type} {f : α → β} {g : α → α} (same : ∀ x, f (g x) = f x)
    (xs : List α) (i : Nat) : (xs.modify i g).map f = xs.map f := by
  apply List.ext_getElem?
  intro j
  rw [List.getElem?_map, List.getElem?_map, List.getElem?_modify]
  cases xs[j]? with
  | none => rfl
  | some x =>
      refine congrArg some ?_
      split
      · exact same x
      · rfl

/-- What an answer leaves alone of each call, it leaves alone. -/
theorem map_answer {β : Type} {f : InferCall → β}
    (same : ∀ slot call, f (InferCall.answer slot call) = f call) (slot : ReplySlot)
    (calls : List InferCall) (request : WorkerRequest) :
    (request.answer slot calls).map f = calls.map f :=
  map_modify_same (same slot) calls request.call

theorem map_foldl_answer {β : Type} {f : InferCall → β}
    (same : ∀ slot call, f (InferCall.answer slot call) = f call) (requests : List WorkerRequest)
    (calls : List InferCall) :
    (requests.foldl (WorkerRequest.answer .closed) calls).map f = calls.map f := by
  induction requests generalizing calls with
  | nil => rfl
  | cons request requests ih => rw [List.foldl_cons, ih, map_answer same]

theorem input_answer (slot : ReplySlot) (call : InferCall) :
    (call.answer slot).input = call.input := by
  unfold InferCall.answer
  split <;> rfl

/-- A step starts the call of its input, and no other call changes its own. -/
theorem map_input_of_moves {a : PoolAction} (moves : Moves session s a t) :
    t.calls.map InferCall.input = s.calls.map InferCall.input ++ a.inferred.toList := by
  have kept {i : Nat} {before behind : InferCall} (found : s.calls[i]? = some before)
      (same : behind.input = before.input) :
      (s.calls.set i behind).map InferCall.input = s.calls.map InferCall.input ++ [] := by
    rw [map_set_same InferCall.input found same, List.append_nil]
  cases moves with
  | infer owned =>
      rw [List.map_append]
      rfl
  | enqueue found room => exact kept found rfl
  | refuse found closed => exact kept found rfl
  | finish found ready => exact kept found rfl
  | abandon found live => exact kept found rfl
  | drain found head failed =>
      exact (map_answer input_answer _ _ _).trans (List.append_nil _).symm
  | reply found => exact (map_answer input_answer _ _ _).trans (List.append_nil _).symm
  | unwind found => exact (map_answer input_answer _ _ _).trans (List.append_nil _).symm
  | leave found =>
      rw [closeReceiver]
      split
      · exact (map_foldl_answer input_answer _ _).trans (List.append_nil _).symm
      · exact (List.append_nil _).symm
  | _ => exact (List.append_nil _).symm

theorem map_input_of_execute {as : List PoolAction}
    (run : execute (poolStep session) s as = some t) :
    t.calls.map InferCall.input = s.calls.map InferCall.input ++ as.filterMap PoolAction.inferred := by
  induction as generalizing s with
  | nil =>
      cases run
      exact (List.append_nil _).symm
  | cons a as ih =>
      obtain ⟨s', next, rest⟩ := execute_cons_eq_some.mp run
      rw [ih rest, map_input_of_moves (moves_of_step next), List.filterMap_cons, List.append_assoc]
      cases a.inferred <;> rfl

/-- A session is poisoned by one panic, and no second one follows. -/
theorem Guarded.poisoned_of_moves (guarded : s.Guarded) {a : PoolAction}
    (moves : Moves session s a t) :
    t.poisoned.toNat = s.poisoned.toNat + if a.isPanic then 1 else 0 := by
  cases moves with
  | panic found =>
      have sum := sum_set WorkerPhase.runs found (.leaving true)
      change _ + 1 = _ + 0 at sum
      have runners := guarded.runners
      rw [InferencePool.runners] at runners
      change 1 = s.poisoned.toNat + 1
      omega
  | leave found =>
      rw [closeReceiver]
      split <;> rfl
  | _ => rfl

theorem countP_isPanic_of_execute (sound : Sound session s) {as : List PoolAction}
    (run : execute (poolStep session) s as = some t) :
    t.poisoned.toNat = s.poisoned.toNat + as.countP PoolAction.isPanic := by
  induction as generalizing s with
  | nil =>
      cases run
      rfl
  | cons a as ih =>
      obtain ⟨s', next, rest⟩ := execute_cons_eq_some.mp run
      have here := sound.guarded.poisoned_of_moves (moves_of_step next)
      have later := ih (sound.step next) rest
      rw [List.countP_cons]
      omega

/-- The requests in the channel and with the workers are of different calls, each has the input of
its call, and every call that waits unanswered has one. -/
def Exchanges (s : InferencePool) : Prop :=
  (s.underWay.map WorkerRequest.call).Nodup ∧
    (∀ request ∈ s.underWay,
      s.calls[request.call]? = some (.waiting request.input .unanswered) ∨
        s.calls[request.call]? = some (.dropped request.input)) ∧
    ∀ i input, s.calls[i]? = some (.waiting input .unanswered) → ⟨i, input⟩ ∈ s.underWay

theorem Linear.exchanges (linear : Linear s.calls s.underWay) : s.Exchanges := by
  have expected : ∀ request ∈ s.underWay,
      s.calls[request.call]? = some (.waiting request.input .unanswered) ∨
        s.calls[request.call]? = some (.dropped request.input) := by
    intro request member
    obtain ⟨call, found, rfl | rfl⟩ := linear.expected request member
    · exact .inl found
    · exact .inr found
  refine ⟨linear.once, expected, fun i input waits => ?_⟩
  obtain ⟨request, member, rfl⟩ := linear.held i input waits
  rcases expected request member with found | found
  · cases found.symm.trans waits
    exact member
  · cases found.symm.trans waits

/-- An answer is the inference of the call's input; the error for a pool with no session; or, once
a worker has panicked, one of the three errors for that. -/
def AnswersOwn (session : OnnxSession) (prepared : Except SemanticError InputPlan)
    (panicked : Prop) (s : InferencePool) : Prop :=
  ∀ input result, .returned input result ∈ s.calls →
    (∃ plan, prepared = .ok plan ∧ result = session.runSessionInference input plan) ∨
    ((∃ e, prepared = .error e) ∧ result = .error responseDropped) ∨
    (panicked ∧ (result = .error responseDropped ∨
      (2 ≤ s.workerCount ∧ result = .error sessionPoisoned) ∨
      (s.workerCount = 1 ∧ result = .error channelClosed)))

/-- In every interleaving the calls are those that were started, the requests are theirs, and the
answers are. -/
theorem answersOwn_of_execute (session : OnnxSession) (parallelism : Nat)
    (prepared : Except SemanticError InputPlan) {as : List PoolAction} {t : InferencePool}
    (run : execute (poolStep session) (new parallelism prepared) as = some t) :
    t.calls.map InferCall.input = as.filterMap PoolAction.inferred ∧ t.Exchanges ∧
      AnswersOwn session prepared (∃ w, .panic w ∈ as) t := by
  have sound : Sound session t := sound_of_execute run
  refine ⟨map_input_of_execute run, sound.linear.exchanges, fun input result member => ?_⟩
  have plan : t.plan = prepared.toOption := (fixed_of_execute run).2
  have panicked (poisoned : t.poisoned = true) : ∃ w, .panic w ∈ as := by
    have count := countP_isPanic_of_execute (sound_new parallelism prepared) run
    rw [poisoned] at count
    change 1 = 0 + _ at count
    obtain ⟨a, inside, panics⟩ := List.countP_pos_iff.mp (show 0 < as.countP PoolAction.isPanic by
      omega)
    cases a with
    | panic w => exact ⟨w, inside⟩
    | _ => cases panics
  rcases sound.answered.calls _ member result rfl with
    ⟨loaded, ready, same⟩ | ⟨failed | poisoned, same⟩ | ⟨poisoned, many, same⟩ |
    ⟨poisoned, single, same⟩
  · refine .inl ⟨loaded, ?_, same⟩
    cases prepared with
    | ok made => exact congrArg Except.ok (Option.some.inj (plan.symm.trans ready))
    | error e => cases plan.symm.trans ready
  · refine .inr (.inl ⟨?_, same⟩)
    cases prepared with
    | ok made => cases plan.symm.trans failed
    | error e => exact ⟨e, rfl⟩
  · exact .inr (.inr ⟨panicked poisoned, .inl same⟩)
  · exact .inr (.inr ⟨panicked poisoned, .inr (.inl ⟨many, same⟩)⟩)
  · exact .inr (.inr ⟨panicked poisoned, .inr (.inr ⟨single, same⟩)⟩)

theorem answersOwn_behindPanic : ∃ t,
    execute (poolStep countingSession) (new 3 requiredPlan)
        (untilPanic ++ .panic 1 :: behindPanic) = some t ∧
      t.calls.map InferCall.input =
          (untilPanic ++ .panic 1 :: behindPanic).filterMap PoolAction.inferred ∧
        t.Exchanges ∧
          AnswersOwn countingSession requiredPlan
            (∃ w, .panic w ∈ untilPanic ++ .panic 1 :: behindPanic) t :=
  ⟨_, rfl, answersOwn_of_execute countingSession 3 requiredPlan rfl⟩

end InferencePool

end Webfang
