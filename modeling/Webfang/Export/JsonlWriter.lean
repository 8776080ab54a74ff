import Webfang.Lib.Execution
import Webfang.Export.VectorExporter

/-!
# The single writer of a JSONL file

`infrastructure/export/jsonl_writer.rs`: the clones of a session send messages over a bounded
channel, one writer thread serves them in order.  A step is one move of a call or of the
writer, so a list of actions is an interleaving of any number of clones.  Lines that were
accepted by the channel and lines that were written whole are recorded beside the file.
-/

namespace Webfang

/-- The bytes one call to `append` hands over. -/
abbrev Line := List UInt8

/-- `io::Result<()>`, an error by its text. -/
abbrev IoResult := Except String Unit

inductive LineMsg
  | append (bytes : Line)
  /-- resolve this ack after the flush -/
  | flushAnd (ack : Nat)
  | shutdown
  deriving DecidableEq, Repr

/-- `CHANNEL_CAPACITY`. -/
def channelCapacity : Nat := 1024

/-- `recover_torn_tail`: the file up to its last newline. -/
def recoverTornTail (data : List UInt8) : List UInt8 :=
  match rfind (· == 0x0A) data with
  | some lastNewline => data.take (lastNewline + 1)
  | none => []

/-- Where `writer_loop` stands. -/
inductive WriterState
  | running
  /-- the exit signal is sent, the receiver not dropped yet -/
  | exiting (outcome : IoResult)
  | gone (outcome : IoResult)
  deriving DecidableEq

/-- The exit receiver, and the `close` call that took it. -/
inductive ExitSlot
  | held
  /-- taken; the Shutdown is not sent yet -/
  | taken
  | awaited
  | answered
  deriving DecidableEq, Repr

/-- A `flush` call: what the writer answered and what the call returned. -/
structure FlushCall where
  ack : Option IoResult
  returned : Option IoResult

/-- A file with its channel, its writer and the calls of its clones. -/
structure JsonlSystem where
  file : List UInt8
  queue : List LineMsg
  writer : WriterState
  exit : ExitSlot
  /-- some clone is still alive -/
  senders : Bool
  flushes : Nat → Option FlushCall
  nextAck : Nat
  /-- the lines whose `append` returned `Ok`, in channel order -/
  accepted : List Line
  /-- the lines the writer has written whole -/
  written : List Line
  /-- the lines that were accepted when this flush was sent -/
  sentBehind : Nat → List Line
  /-- some `close` has returned `Ok` -/
  closedOk : Bool

/-- What the operating system does with the next write or flush. -/
inductive IoOutcome
  | done
  /-- an error, behind this many bytes of a write -/
  | failed (bytes : Nat) (error : String)

def IoOutcome.result : IoOutcome → IoResult
  | .done => .ok ()
  | .failed _ error => .error error

inductive JsonlAction
  | append (line : Line)
  | flush
  | flushReturn (ack : Nat)
  | close
  | closeSend
  | closeReturn
  | dropSenders
  /-- the writer serves its next message -/
  | recv (io : IoOutcome)
  | dropReceiver

namespace JsonlSystem

/-- `JsonlSession::open`, on a file that can be indexed. -/
def opened (file : List UInt8) : JsonlSystem where
  file := recoverTornTail file
  queue := []
  writer := .running
  exit := .held
  senders := true
  flushes _ := none
  nextAck := 0
  accepted := []
  written := []
  sentBehind _ := []
  closedOk := false

/-- `tx.send`: no answer while the channel is full, an error once the receiver is dropped. -/
def send (s : JsonlSystem) (message : LineMsg) : Option (Except String (List LineMsg)) :=
  match s.writer with
  | .gone _ => some (.error "JSONL writer has exited")
  | _ => if s.queue.length < channelCapacity then some (.ok (s.queue ++ [message])) else none

/-- `JsonlSession::append`. -/
def append (s : JsonlSystem) (line : Line) : Option JsonlSystem :=
  match s.send (.append line) with
  | none => none
  | some (.error _) => some s
  | some (.ok queue) => some { s with queue := queue, accepted := s.accepted ++ [line] }

/-- The first half of `JsonlSession::flush`: send the request. -/
def flush (s : JsonlSystem) : Option JsonlSystem :=
  match s.send (.flushAnd s.nextAck) with
  | none => none
  | some (.error error) => some
      { s with
        flushes := Function.update s.flushes s.nextAck (some ⟨none, some (.error error)⟩)
        nextAck := s.nextAck + 1 }
  | some (.ok queue) => some
      { s with
        queue := queue
        flushes := Function.update s.flushes s.nextAck (some ⟨none, none⟩)
        nextAck := s.nextAck + 1
        sentBehind := Function.update s.sentBehind s.nextAck s.accepted }

/-- The second half: a resolved ack, or one that was dropped with the receiver. -/
def flushReturn (s : JsonlSystem) (ack : Nat) : Option JsonlSystem :=
  match s.flushes ack with
  | some ⟨some result, none⟩ => some
      { s with flushes := Function.update s.flushes ack (some ⟨some result, some result⟩) }
  | some ⟨none, none⟩ =>
      match s.writer with
      | .gone _ => some
          { s with
            flushes := Function.update s.flushes ack
              (some ⟨none, some (.error "JSONL writer died before flushing")⟩) }
      | _ => none
  | _ => none

/-- The first step of `JsonlSession::close`: take the exit receiver, or return at once. -/
def close (s : JsonlSystem) : JsonlSystem :=
  match s.exit with
  | .held => { s with exit := .taken }
  | _ => { s with closedOk := true }

/-- The second step: send the Shutdown, whatever becomes of it. -/
def closeSend (s : JsonlSystem) : Option JsonlSystem :=
  match s.exit with
  | .taken =>
      match s.send .shutdown with
      | none => none
      | some (.error _) => some { s with exit := .awaited }
      | some (.ok queue) => some { s with queue := queue, exit := .awaited }
  | _ => none

/-- The last step: the writer's exit signal is the answer. -/
def closeReturn (s : JsonlSystem) : Option JsonlSystem :=
  match s.exit, s.writer with
  | .awaited, .exiting outcome | .awaited, .gone outcome => some
      { s with exit := .answered, closedOk := s.closedOk || outcome.isOk }
  | _, _ => none

/-- One turn of `writer_loop`. -/
def recv (s : JsonlSystem) (io : IoOutcome) : Option JsonlSystem :=
  match s.writer with
  | .running =>
      match s.queue with
      | .append bytes :: queue =>
          match io with
          | .done => some
              { s with file := s.file ++ bytes, queue := queue, written := s.written ++ [bytes] }
          | .failed n error => some
              { s with
                file := s.file ++ bytes.take n
                queue := queue
                writer := .exiting (.error error) }
      | .flushAnd ack :: queue => some
          { s with
            queue := queue
            flushes := Function.update s.flushes ack
              ((s.flushes ack).map fun call => { call with ack := some io.result }) }
      | .shutdown :: queue => some { s with queue := queue, writer := .exiting io.result }
      | [] => if s.senders then none else some { s with writer := .exiting io.result }
  | _ => none

/-- The end of `writer_loop`: what is still queued is dropped. -/
def dropReceiver (s : JsonlSystem) : Option JsonlSystem :=
  match s.writer with
  | .exiting outcome => some { s with queue := [], writer := .gone outcome }
  | _ => none

end JsonlSystem

/-- The moves of the calls need a clone that is alive; when the last one is dropped, the calls
that still wait are dropped with it. -/
def jsonlStep (s : JsonlSystem) (a : JsonlAction) : Option JsonlSystem :=
  match a with
  | .recv io => s.recv io
  | .dropReceiver => s.dropReceiver
  | .append line => if s.senders then s.append line else none
  | .flush => if s.senders then s.flush else none
  | .flushReturn ack => if s.senders then s.flushReturn ack else none
  | .close => if s.senders then some s.close else none
  | .closeSend => if s.senders then s.closeSend else none
  | .closeReturn => if s.senders then s.closeReturn else none
  | .dropSenders => if s.senders then some { s with senders := false } else none

end Webfang
