import Webfang.Lib.Execution
import Webfang.Lib.Parties

/-!
# The background writer of the crawl results

`application/crawl_result_repository.rs`: `save` puts a command into a bounded channel, a writer
takes the commands and appends their records, and `shutdown` sends one more command and joins the
writer.  Any number of calls of the two is under way, and an action is what one of them, or the
writer, does next.
-/

namespace Webfang

open StepSystem

/-! ## The parties -/

/-- A command, with the number of the call of `save` that has sent it. -/
inductive WriteCommand (γ : Type) where
  | append (call : Nat) (content : γ)
  | shutdown
  deriving DecidableEq, Repr

inductive WriterPhase where
  /-- in `blocking_recv` -/
  | receiving
  /-- a `Shutdown` was received, and `try_recv` drains the channel -/
  | draining
  /-- the loop is left, and the receiver is not dropped yet -/
  | leaving
  | ended (panicked : Bool)
  deriving DecidableEq, Repr

inductive SavePhase (γ : Type) where
  /-- `write_error` was read -/
  | sending (content : γ)
  | returned (result : Except String Unit)

inductive ShutdownPhase where
  /-- waits for room in the channel -/
  | sending
  /-- takes the handle next -/
  | sent
  | joining
  | returned (joined : Bool) (result : Except String Unit)

structure WriterSystem (γ : Type) where
  capacity : Nat
  queue : List (WriteCommand γ)
  writer : WriterPhase
  /-- the writer has opened the log -/
  opened : Bool
  writeError : Bool
  /-- `writer_handle` is there to be taken -/
  handle : Bool
  /-- the records that were written whole -/
  log : List (Nat × γ)
  /-- the writer has stopped, or failed, on a command it had taken -/
  failed : Bool
  saves : List (SavePhase γ)
  shutdowns : List ShutdownPhase

/-- What becomes of a record. -/
inductive AppendOutcome where
  | written
  /-- the log cannot be opened, or its size not be read -/
  | openFails
  | frameFails
  | panics
  deriving DecidableEq, Repr

inductive WriterAction (γ : Type) where
  /-- a call of `save`; serializing the content may fail -/
  | save (content : Except String γ)
  | trySend (i : Nat)
  /-- a call of `shutdown` -/
  | shutdown
  | sendShutdown (i : Nat)
  | takeHandle (i : Nat)
  | join (i : Nat)
  /-- the writer takes a command, or finds the channel empty -/
  | recv (outcome : AppendOutcome)
  /-- the writer is gone with its receiver -/
  | dropReceiver

namespace WriterSystem

variable {γ : Type}

/-- `CrawlResultRepositoryImpl::new`. -/
def new (capacity : Nat) : WriterSystem γ where
  capacity := capacity
  queue := []
  writer := .receiving
  opened := false
  writeError := false
  handle := true
  log := []
  failed := false
  saves := []
  shutdowns := []

/-! ## Saving -/

/-- `save`, up to its `try_send`. -/
def save (s : WriterSystem γ) (content : Except String γ) : WriterSystem γ :=
  let phase :=
    if s.writeError then .returned (.error "writer caído, datos no persistidos")
    else
      match content with
      | .ok content => .sending content
      | .error e => .returned (.error s!"serialización fallida: {e}")
  { s with saves := s.saves ++ [phase] }

def isGone (s : WriterSystem γ) : Bool :=
  match s.writer with
  | .ended _ => true
  | _ => false

def trySend (s : WriterSystem γ) (i : Nat) (content : γ) : WriterSystem γ :=
  if s.isGone then
    { s with
      writeError := true
      saves := s.saves.set i (.returned (.error "writer caído, canal cerrado")) }
  else if s.queue.length < s.capacity then
    { s with
      queue := s.queue ++ [.append i content]
      saves := s.saves.set i (.returned (.ok ())) }
  else { s with saves := s.saves.set i (.returned (.error "canal lleno, backpressure")) }

/-! ## Shutting down -/

/-- `send`, which waits for room; that the channel is closed is ignored. -/
def sendShutdown (s : WriterSystem γ) (i : Nat) : Option (WriterSystem γ) :=
  if s.isGone then some { s with shutdowns := s.shutdowns.set i .sent }
  else if s.queue.length < s.capacity then
    some { s with queue := s.queue ++ [.shutdown], shutdowns := s.shutdowns.set i .sent }
  else none

def takeHandle (s : WriterSystem γ) (i : Nat) : WriterSystem γ :=
  if s.handle then { s with handle := false, shutdowns := s.shutdowns.set i .joining }
  else { s with shutdowns := s.shutdowns.set i (.returned false (.ok ())) }

/-- `handle.await`, and what is made of it. -/
def join (s : WriterSystem γ) (i : Nat) : Option (WriterSystem γ) :=
  match s.writer with
  | .ended false =>
      let result := if s.writeError then
        .error "el writer reportó errores de I/O durante el cierre" else .ok ()
      some { s with writeError := true, shutdowns := s.shutdowns.set i (.returned true result) }
  | .ended true =>
      let result := .error "writer caído durante shutdown"
      some { s with writeError := true, shutdowns := s.shutdowns.set i (.returned true result) }
  | _ => none

/-! ## Writing -/

/-- `append_cmd`; a log that is open is not opened again. -/
def appendCmd (s : WriterSystem γ) (call : Nat) (content : γ) :
    AppendOutcome → Option (WriterSystem γ)
  | .written => some { s with opened := true, log := s.log ++ [(call, content)] }
  | .frameFails => some { s with opened := true, writeError := true, failed := true }
  | .openFails =>
      if s.opened then none
      else some { s with writeError := true, failed := true, writer := .leaving }
  | .panics => some { s with failed := true, writer := .ended true }

/-- One turn of the loop of `run`, or of the one that drains. -/
def recv (s : WriterSystem γ) (outcome : AppendOutcome) : Option (WriterSystem γ) :=
  match s.writer, s.queue with
  | .receiving, [] => none
  | .receiving, .shutdown :: rest => some { s with queue := rest, writer := .draining }
  | .receiving, .append call content :: rest | .draining, .append call content :: rest =>
      { s with queue := rest }.appendCmd call content outcome
  | .draining, [] => some { s with writer := .leaving }
  | .draining, .shutdown :: rest => some { s with queue := rest, writer := .leaving }
  | .leaving, _ | .ended _, _ => none

end WriterSystem

section Step

variable {γ : Type}

def writerStep (s : WriterSystem γ) : WriterAction γ → Option (WriterSystem γ)
  | .save content => some (s.save content)
  | .trySend i =>
      match s.saves[i]? with
      | some (.sending content) => some (s.trySend i content)
      | _ => none
  | .shutdown => some { s with shutdowns := s.shutdowns ++ [.sending] }
  | .sendShutdown i =>
      match s.shutdowns[i]? with
      | some .sending => s.sendShutdown i
      | _ => none
  | .takeHandle i =>
      match s.shutdowns[i]? with
      | some .sent => some (s.takeHandle i)
      | _ => none
  | .join i =>
      match s.shutdowns[i]? with
      | some .joining => s.join i
      | _ => none
  | .recv outcome => s.recv outcome
  | .dropReceiver => if s.writer = .leaving then some { s with writer := .ended false } else none

end Step

/-! ## Saves that are kept -/

section Kept

variable {γ : Type}

def WriteCommand.isAppend : WriteCommand γ → Bool
  | .append _ _ => true
  | .shutdown => false

/-- The call has returned `Ok`. -/
def ShutdownPhase.Succeeded : ShutdownPhase → Prop
  | .returned _ (.ok _) => True
  | _ => False

instance (phase : ShutdownPhase) : Decidable phase.Succeeded :=
  match phase with
  | .returned _ (.ok _) => .isTrue trivial
  | .returned _ (.error _) | .sending | .sent | .joining => .isFalse id

def SavePhase.isAccepted : SavePhase γ → Bool
  | .returned (.ok _) => true
  | _ => false

namespace WriterSystem

/-- The writer has left its loop. -/
def HasLeft (s : WriterSystem γ) : Prop := s.writer = .leaving ∨ s.isGone = true

/-- There was a shutdown, and all have returned `Ok`. -/
def ShutDown (s : WriterSystem γ) : Prop :=
  s.shutdowns ≠ [] ∧ ∀ phase ∈ s.shutdowns, phase.Succeeded

/-- A save that has returned `Ok` is in the log. -/
def AcceptedLogged (s : WriterSystem γ) : Prop :=
  ∀ i, (s.saves[i]?.any (·.isAccepted)) = true → i ∈ s.log.map Prod.fst

/-- The loop leaves no record behind in the channel, unless the writer has failed. -/
def LeavesNothing (s : WriterSystem γ) : Prop :=
  s.HasLeft → s.failed = false → s.queue.all (!·.isAppend)

/-- No accepted save is left behind in the channel; and when all shutdowns have returned `Ok`, all
accepted saves are in the log, and the writer has failed on none. -/
def KeepsAccepted (s : WriterSystem γ) : Prop :=
  s.LeavesNothing ∧ (s.ShutDown → s.AcceptedLogged ∧ s.failed = false)

/-- Unless the writer has failed, no record stands behind the `Shutdown` that ends its draining, and
none is sent between the end of its draining and that of its receiver. -/
def DrainsAll (s : WriterSystem γ) : WriterAction γ → Prop
  | .recv _ => s.failed = false → s.writer = .draining → s.queue.head? = some .shutdown →
      s.queue.all (!·.isAppend)
  | .trySend i => s.failed = false → s.writer = .leaving →
      ∀ content, s.saves[i]? = some (.sending content) → s.capacity ≤ s.queue.length
  | _ => True

end WriterSystem

end Kept

end Webfang
