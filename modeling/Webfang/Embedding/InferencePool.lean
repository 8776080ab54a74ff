import Webfang.Embedding.Tokenizer
import Webfang.Lib.Execution
import Webfang.Lib.Parties

/-!
# The inference pool

`infrastructure_ai/inference_engine.rs`: calls of `infer` send their requests through a bounded
channel to worker threads, which take turns at the receiver and share one session behind a mutex.
Each request carries the sender of a oneshot channel on which its call waits.
-/

namespace Webfang

open StepSystem Parties

/-! ## The session -/

/-- The inputs that the graph declares, in its order. -/
structure InputPlan where
  names : List String
  deriving DecidableEq, Repr

namespace InputPlan

def REQUIRED : List String := ["input_ids", "attention_mask"]

def KNOWN : List String := ["input_ids", "attention_mask", "token_type_ids"]

def resolve (names : List String) : Except SemanticError InputPlan :=
  let missing := REQUIRED.filter fun r => !names.contains r
  if !missing.isEmpty then
    let listed := ", ".intercalate missing
    .error (.inference s!"missing required model inputs: {listed}")
  else
    match names.find? fun n => !KNOWN.contains n with
    | some n => .error (.inference s!"unsupported input: {n}")
    | none => .ok ⟨names⟩

end InputPlan

/-- What `ort` and `ndarray` compute: `run` is the execution of the model behind the named tensors
with the pooling of its output, `shapeError` the text for a row that has another length than the
sequence. -/
structure OnnxSession where
  run : List (String × List Int) → Except SemanticError (List UInt32)
  shapeError : Nat → Nat → String

namespace OnnxSession

variable (session : OnnxSession)

/-- The tensor of a name, one row of the sequence's length. -/
def tensor (input : ModelInput) (name : String) : Except SemanticError (String × List Int) :=
  let row (values : List Int) :=
    if values.length = input.inputIds.length then .ok (name, values)
    else .error (.inference s!"failed to create {name} array: {
      session.shapeError input.inputIds.length values.length}")
  if name = "input_ids" then row input.inputIds
  else if name = "attention_mask" then row input.attentionMask
  else if name = "token_type_ids" then row input.tokenTypeIds
  else .error (.inference s!"unsupported input: {name}")

def runSessionInference (input : ModelInput) (plan : InputPlan) :
    Except SemanticError (List UInt32) := do
  let namedInputs ← plan.names.mapM (session.tensor input)
  session.run namedInputs

end OnnxSession

/-! ## Calls and workers -/

abbrev InferResult := Except SemanticError (List UInt32)

def channelClosed : SemanticError := .inference "InferencePool channel closed (all workers exited)"

def responseDropped : SemanticError := .inference "Worker dropped response channel"

def sessionPoisoned : SemanticError :=
  .inference "shared ONNX session poisoned by a previous worker panic"

/-- A request, with the call that holds the other end of its `reply_tx`. -/
structure WorkerRequest where
  call : Nat
  input : ModelInput
  deriving DecidableEq, Repr

/-- The oneshot channel of a request; `closed` when its sender was dropped unused. -/
inductive ReplySlot
  | unanswered
  | sent (result : InferResult)
  | closed
  deriving DecidableEq, Repr

/-- What `reply_rx.await` gives, once it is ready. -/
def ReplySlot.result : ReplySlot → Option InferResult
  | unanswered => none
  | sent result => some result
  | closed => some (.error responseDropped)

/-- Where a call of `infer` waits. -/
inductive InferCall
  | sending (input : ModelInput)
  | waiting (input : ModelInput) (slot : ReplySlot)
  | returned (input : ModelInput) (result : InferResult)
  /-- the future is gone -/
  | dropped (input : ModelInput)
  deriving DecidableEq, Repr

namespace InferCall

def input : InferCall → ModelInput
  | sending input | waiting input _ | returned input _ | dropped input => input

def isSettled : InferCall → Bool
  | returned .. | dropped _ => true
  | _ => false

/-- An answer to a call that does not wait is lost. -/
def answer (slot : ReplySlot) : InferCall → InferCall
  | waiting input .unanswered => waiting input slot
  | call => call

end InferCall

/-- The request's `reply_tx` is used, or dropped. -/
def WorkerRequest.answer (slot : ReplySlot) (calls : List InferCall) (request : WorkerRequest) :
    List InferCall := calls.modify request.call (InferCall.answer slot)

/-- Where a worker thread is. `leaving` and `gone` tell whether it has panicked; it has its handle
on the receiver until it is gone. -/
inductive WorkerPhase
  /-- before `receiver.lock()` -/
  | receiving
  /-- in `blocking_recv`, with the receiver's lock -/
  | holding
  /-- before `session.lock()` -/
  | serving (request : WorkerRequest)
  | running (request : WorkerRequest)
  | replying (request : WorkerRequest) (result : InferResult)
  | unwinding (request : WorkerRequest)
  | leaving (panicked : Bool)
  | gone (panicked : Bool)
  deriving DecidableEq, Repr

namespace WorkerPhase

def request : WorkerPhase → Option WorkerRequest
  | serving r | running r | replying r _ | unwinding r => some r
  | _ => none

def isGone : WorkerPhase → Bool
  | gone _ => true
  | _ => false

/-- The worker has the lock of the receiver. -/
def holds : WorkerPhase → Nat
  | holding => 1
  | _ => 0

/-- The worker has the lock of the session. -/
def runs : WorkerPhase → Nat
  | running _ => 1
  | _ => 0

def panicked : WorkerPhase → Nat
  | unwinding _ => 1
  | leaving true | gone true => 1
  | _ => 0

end WorkerPhase

/-- The owner's side: `Drop` drops the sender first and joins the workers then. -/
inductive PoolHandle
  | owned
  | dropping
  | joined
  deriving DecidableEq, Repr

/-- `plan` is that of the shared session, when it was built. -/
structure InferencePool where
  workerCount : Nat
  plan : Option InputPlan
  handle : PoolHandle
  poisoned : Bool
  queue : List WorkerRequest
  calls : List InferCall
  workers : List WorkerPhase
  deriving DecidableEq, Repr

inductive PoolAction
  | infer (input : ModelInput)
  /-- the `send` gets through, or the channel is closed -/
  | send (call : Nat)
  | finish (call : Nat)
  /-- the future is dropped -/
  | abandon (call : Nat)
  | lockReceiver (worker : Nat)
  | recv (worker : Nat)
  | lockSession (worker : Nat)
  | compute (worker : Nat)
  | panic (worker : Nat)
  | reply (worker : Nat)
  | unwind (worker : Nat)
  | leave (worker : Nat)
  | drop
  | join
  deriving DecidableEq, Repr

namespace PoolAction

/-- The input of a call that the action starts. -/
def inferred : PoolAction → Option ModelInput
  | infer input => some input
  | _ => none

def isPanic : PoolAction → Bool
  | panic _ => true
  | _ => false

/-- What calls, workers and a `Drop` under way do by themselves. -/
def isInternal : PoolAction → Bool
  | infer _ | abandon _ | panic _ | drop => false
  | _ => true

end PoolAction

namespace InferencePool

/-- With no session there is one thread, which drains the channel. -/
def new (parallelism : Nat) (prepared : Except SemanticError InputPlan) : InferencePool :=
  let workerCount := max (parallelism - 1) 1
  { workerCount
    plan := prepared.toOption
    handle := .owned
    poisoned := false
    queue := []
    calls := []
    workers := List.replicate (if prepared.toOption.isSome then workerCount else 1) .receiving }

/-- The receiver went with the last worker. -/
def isClosed (s : InferencePool) : Bool := s.workers.all (·.isGone)

def holders (s : InferencePool) : Nat := (s.workers.map WorkerPhase.holds).sum

def runners (s : InferencePool) : Nat := (s.workers.map WorkerPhase.runs).sum

def moveWorker (s : InferencePool) (w : Nat) (phase : WorkerPhase) : InferencePool :=
  { s with workers := s.workers.set w phase }

def moveCall (s : InferencePool) (i : Nat) (call : InferCall) : InferencePool :=
  { s with calls := s.calls.set i call }

def answer (s : InferencePool) (slot : ReplySlot) (request : WorkerRequest) : InferencePool :=
  { s with calls := request.answer slot s.calls }

/-- Requests that nobody will receive are dropped with the receiver. -/
def closeReceiver (s : InferencePool) : InferencePool :=
  if s.isClosed then
    { s with queue := [], calls := s.queue.foldl (WorkerRequest.answer .closed) s.calls }
  else s

def send (s : InferencePool) (i : Nat) : Option InferencePool :=
  match s.calls[i]? with
  | some (.sending input) =>
      if s.isClosed then some (s.moveCall i (.returned input (.error channelClosed)))
      else if s.queue.length < s.workerCount then
        some { s.moveCall i (.waiting input .unanswered) with queue := s.queue ++ [⟨i, input⟩] }
      else none
  | _ => none

def recv (s : InferencePool) (w : Nat) : Option InferencePool :=
  match s.workers[w]?, s.queue with
  | some .holding, request :: rest =>
      match s.plan with
      | some _ => some { s.moveWorker w (.serving request) with queue := rest }
      | none => some ({ s.moveWorker w .receiving with queue := rest }.answer .closed request)
  | some .holding, [] =>
      if s.handle = .owned then none else some (s.moveWorker w (.leaving false))
  | _, _ => none

def lockSession (s : InferencePool) (w : Nat) : Option InferencePool :=
  match s.workers[w]? with
  | some (.serving request) =>
      if s.poisoned then some (s.moveWorker w (.replying request (.error sessionPoisoned)))
      else if s.runners = 0 then some (s.moveWorker w (.running request))
      else none
  | _ => none

end InferencePool

/-- One move of a call, of a worker or of the owner. -/
def poolStep (session : OnnxSession) (s : InferencePool) : PoolAction → Option InferencePool
  | .infer input =>
      if s.handle = .owned then some { s with calls := s.calls ++ [.sending input] } else none
  | .send i => s.send i
  | .finish i =>
      match s.calls[i]? with
      | some (.waiting input slot) =>
          slot.result.map fun result => s.moveCall i (.returned input result)
      | _ => none
  | .abandon i =>
      match s.calls[i]? with
      | some (.sending input) | some (.waiting input _) => some (s.moveCall i (.dropped input))
      | _ => none
  | .lockReceiver w =>
      match s.workers[w]? with
      | some .receiving => if s.holders = 0 then some (s.moveWorker w .holding) else none
      | _ => none
  | .recv w => s.recv w
  | .lockSession w => s.lockSession w
  | .compute w =>
      match s.workers[w]?, s.plan with
      | some (.running request), some plan =>
          some (s.moveWorker w
            (.replying request (session.runSessionInference request.input plan)))
      | _, _ => none
  | .panic w =>
      match s.workers[w]? with
      | some (.running request) => some { s.moveWorker w (.unwinding request) with poisoned := true }
      | _ => none
  | .reply w =>
      match s.workers[w]? with
      | some (.replying request result) =>
          some ((s.moveWorker w .receiving).answer (.sent result) request)
      | _ => none
  | .unwind w =>
      match s.workers[w]? with
      | some (.unwinding request) => some ((s.moveWorker w (.leaving true)).answer .closed request)
      | _ => none
  | .leave w =>
      match s.workers[w]? with
      | some (.leaving panicked) => some (s.moveWorker w (.gone panicked)).closeReceiver
      | _ => none
  | .drop =>
      -- a call borrows the pool, so none is under way
      if s.handle = .owned ∧ s.calls.all (·.isSettled) then some { s with handle := .dropping }
      else none
  | .join =>
      if s.handle = .dropping ∧ s.isClosed then some { s with handle := .joined } else none

/-- A session that answers with the number of its tensors, and the plan of two of them. -/
def countingSession : OnnxSession where
  run namedInputs := .ok [UInt32.ofNat namedInputs.length]
  shapeError expected found := s!"{found} values for {expected}"

def requiredPlan : Except SemanticError InputPlan := .ok ⟨InputPlan.REQUIRED⟩

/-- The first of three calls is answered; a worker takes the second. -/
def untilPanic : List PoolAction :=
  [.infer ⟨[1], [1], [0]⟩, .infer ⟨[2], [1], [0]⟩, .send 0, .send 1, .lockReceiver 0, .recv 0,
    .lockReceiver 1, .recv 1, .lockSession 0, .compute 0, .reply 0, .finish 0, .lockSession 1]

/-- The worker has panicked; the third call is answered by the other. -/
def behindPanic : List PoolAction :=
  [.unwind 1, .finish 1, .infer ⟨[3], [1], [0]⟩, .lockReceiver 0, .send 2, .recv 0,
    .lockSession 0, .reply 0, .leave 1, .finish 2, .drop, .lockReceiver 0, .recv 0, .leave 0, .join]

end Webfang
