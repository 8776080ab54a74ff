import Webfang.Lib.Execution
import Webfang.Lib.JsonText
import Webfang.Lib.Parties
import Webfang.Sitemap.RobotsDirective

/-!
# The bounded content sink

`application/crawler/bounded_sink.rs`: `capture` hands a page to a bounded channel, directly or by a
task that waits for room, a writer appends the pages to a spool, one line each, and `finish` drops
the sender of the sink and joins the writer.  Any number of calls of `capture` is under way, and an
action is what one of them, `finish` or the writer does next.
-/

namespace Webfang

structure CapturedPage where
  url : List Char
  html : List Char
  deriving DecidableEq, Repr

/-! ## The spool -/

namespace CapturedPage

/-- `serde_json::to_string`. -/
def encode (page : CapturedPage) : List Char :=
  Json.object [("url".toList, page.url), ("html".toList, page.html)]

/-- What the writer appends for a page. -/
def line (page : CapturedPage) : List Char := page.encode ++ ['\n']

/-- A field of a record; it is neither left out nor given twice. -/
def field (name : List Char) (members : List (List Char × Json.Value)) : Option (List Char) :=
  match members.filter (·.1 = name) with
  | [(_, .string text)] => some text
  | _ => none

/-- `serde_json::from_str`; a derived reader takes the fields in an array, too. -/
def decode (text : List Char) : Option CapturedPage :=
  match Json.parse text with
  | some (.object members) => do
      let url ← field "url".toList members
      let html ← field "html".toList members
      return ⟨url, html⟩
  | some (.array [.string url, .string html]) => some ⟨url, html⟩
  | _ => none

end CapturedPage

inductive BoundedSinkError where
  | io
  | codec
  | alreadyFinished
  deriving DecidableEq, Repr

/-- `CapturedPageReader`: the lines that are not read yet. -/
structure CapturedPageReader where
  lines : List (List Char)

namespace CapturedPageReader

/-- `CapturedPageReader::open`, on the text of the spool. -/
def openSpool (spool : List Char) : CapturedPageReader := ⟨Sitemap.lines spool⟩

/-- `next_page`, and the reader behind it. -/
def nextPage (reader : CapturedPageReader) :
    Except BoundedSinkError (Option CapturedPage) × CapturedPageReader :=
  match reader.lines.dropWhile fun line => (Http.Response.trim line).isEmpty with
  | [] => (.ok none, ⟨[]⟩)
  | line :: rest =>
      match CapturedPage.decode line with
      | some page => (.ok (some page), ⟨rest⟩)
      | none => (.error .codec, ⟨rest⟩)

/-- `next_page`, called up to the end, gives the pages. -/
inductive Reads : CapturedPageReader → List CapturedPage → Prop
  | done {reader rest : CapturedPageReader} :
    reader.nextPage = (.ok none, rest) → Reads reader []
  | next {reader rest : CapturedPageReader} {page : CapturedPage} {pages : List CapturedPage} :
    reader.nextPage = (.ok (some page), rest) → Reads rest pages → Reads reader (page :: pages)

end CapturedPageReader

/-! ## The parties -/

inductive CapturePhase where
  | started
  /-- has cloned the sender -/
  | holding
  /-- `try_send` has sent the page -/
  | sent
  /-- `try_send` has found the channel full -/
  | full
  /-- counted, and a task waits for room -/
  | deferred
  /-- counted, the page is sent and the sender not dropped yet -/
  | counted
  | ended
  /-- there was no sender -/
  | refused
  /-- `try_send` has found the channel closed -/
  | discarded
  /-- the task has found the channel closed -/
  | lost
  deriving DecidableEq, Repr

/-- A call of `capture`, with the task it may have spawned. -/
structure Capture where
  page : CapturedPage
  phase : CapturePhase
  deriving DecidableEq, Repr

inductive SpoolWriter where
  /-- in `recv` -/
  | receiving
  | writing (page : CapturedPage)
  | returned (result : Except BoundedSinkError Nat)

inductive FinishPhase where
  | running
  /-- the sender is dropped, and the writer awaited -/
  | joining
  | returned (result : Except BoundedSinkError Nat)

structure SinkSystem where
  capacity : Nat
  queue : List CapturedPage
  /-- the sink has its sender -/
  tx : Bool
  captured : Nat
  captures : List Capture
  writer : SpoolWriter
  written : Nat
  /-- what the buffered writer holds back -/
  buffer : List Char
  /-- the text of the file -/
  spool : List Char
  finish : FinishPhase

inductive SinkAction where
  | capture (page : CapturedPage)
  /-- a call takes a clone of the sender -/
  | clone (i : Nat)
  /-- `try_send`; it finds the channel full, too, where the room is promised to a task -/
  | trySend (i : Nat) (promised : Bool)
  /-- `captured.fetch_add` -/
  | count (i : Nat)
  /-- the task sends its page -/
  | deliver (i : Nat)
  /-- the sender goes out of scope -/
  | drop (i : Nat)
  | recv
  /-- the buffered writer passes on what it holds -/
  | spill
  /-- a page is written, or cannot be -/
  | write (ok : Bool)
  /-- `recv` tells the end, and the file is flushed, or cannot be -/
  | flush (ok : Bool)
  | finish
  | join

/-! ## Steps -/

namespace CapturePhase

/-- The call, or its task, has a sender. -/
def holdsSender : CapturePhase → Bool
  | .holding | .sent | .full | .deferred | .counted => true
  | _ => false

/-- The call took the sender of the sink. -/
def tookSender : CapturePhase → Bool
  | .started | .refused => false
  | _ => true

/-- The page was put into the channel. -/
def isDelivered : CapturePhase → Bool
  | .sent | .counted | .ended => true
  | _ => false

/-- The call has added to `captured`. -/
def isCounted : CapturePhase → Bool
  | .deferred | .counted | .ended | .lost => true
  | _ => false

end CapturePhase

/-- The page, where the phase is such. -/
def Capture.pageWhere (P : CapturePhase → Bool) (c : Capture) : Option CapturedPage :=
  if P c.phase then some c.page else none

def SpoolWriter.isGone : SpoolWriter → Bool
  | .returned _ => true
  | _ => false

namespace SinkSystem

/-- `BoundedFileSink::new`. -/
def new (bufferSize : Nat) : SinkSystem where
  capacity := max bufferSize 1
  queue := []
  tx := true
  captured := 0
  captures := []
  writer := .receiving
  written := 0
  buffer := []
  spool := []
  finish := .running

/-- Some sender is left. -/
def isOpen (s : SinkSystem) : Bool := s.tx || s.captures.any (·.phase.holdsSender)

/-- The call moves to the phase. -/
def move (s : SinkSystem) (i : Nat) (c : Capture) (phase : CapturePhase) : SinkSystem :=
  { s with captures := s.captures.set i { c with phase } }

def trySend (s : SinkSystem) (i : Nat) (c : Capture) (promised : Bool) : Option SinkSystem :=
  if s.writer.isGone then some (s.move i c .discarded)
  else if s.queue.length < s.capacity then
    if promised then
      if s.captures.any (·.phase = .deferred) then some (s.move i c .full) else none
    else some ({ s with queue := s.queue ++ [c.page] }.move i c .sent)
  else some (s.move i c .full)

/-- `send`, which waits for room. -/
def deliver (s : SinkSystem) (i : Nat) (c : Capture) : Option SinkSystem :=
  if s.writer.isGone then some (s.move i c .lost)
  else if s.queue.length < s.capacity then
    some ({ s with queue := s.queue ++ [c.page] }.move i c .counted)
  else none

/-- What the calls of `capture` do. -/
def captureStep (s : SinkSystem) (i : Nat) (c : Capture) : SinkAction → Option SinkSystem
  | .clone _ =>
      match c.phase with
      | .started => some (s.move i c (if s.tx then .holding else .refused))
      | _ => none
  | .trySend _ promised =>
      match c.phase with
      | .holding => s.trySend i c promised
      | _ => none
  | .count _ =>
      match c.phase with
      | .sent => some ({ s with captured := s.captured + 1 }.move i c .counted)
      | .full => some ({ s with captured := s.captured + 1 }.move i c .deferred)
      | _ => none
  | .deliver _ =>
      match c.phase with
      | .deferred => s.deliver i c
      | _ => none
  | .drop _ =>
      match c.phase with
      | .counted => some (s.move i c .ended)
      | _ => none
  | _ => none

def recv (s : SinkSystem) : Option SinkSystem :=
  match s.writer, s.queue with
  | .receiving, page :: rest => some { s with queue := rest, writer := .writing page }
  | _, _ => none

def write (s : SinkSystem) (ok : Bool) : Option SinkSystem :=
  match s.writer with
  | .writing page =>
      if ok then
        some { s with
          buffer := s.buffer ++ page.line, written := s.written + 1, writer := .receiving }
      else some { s with queue := [], writer := .returned (.error .io) }
  | _ => none

/-- `flush` and `sync_all`, when the channel is empty and closed. -/
def flush (s : SinkSystem) (ok : Bool) : Option SinkSystem :=
  match s.writer, s.queue with
  | .receiving, [] =>
      if s.isOpen then none
      else if ok then
        some { s with
          buffer := [], spool := s.spool ++ s.buffer, writer := .returned (.ok s.written) }
      else some { s with writer := .returned (.error .io) }
  | _, _ => none

/-- `handle.await`. -/
def join (s : SinkSystem) : Option SinkSystem :=
  match s.finish, s.writer with
  | .joining, .returned result => some { s with finish := .returned result }
  | _, _ => none

/-- `BoundedFileSink::reader`. -/
def reader (s : SinkSystem) : CapturedPageReader := .openSpool s.spool

end SinkSystem

def sinkStep (s : SinkSystem) (action : SinkAction) : Option SinkSystem :=
  match action with
  | .capture page => some { s with captures := s.captures ++ [⟨page, .started⟩] }
  | .clone i | .trySend i _ | .count i | .deliver i | .drop i =>
      s.captures[i]?.bind fun c => s.captureStep i c action
  | .recv => s.recv
  | .spill =>
      if s.writer.isGone then none
      else some { s with buffer := [], spool := s.spool ++ s.buffer }
  | .write ok => s.write ok
  | .flush ok => s.flush ok
  | .finish =>
      match s.finish with
      | .running => some { s with tx := false, finish := .joining }
      | _ => none
  | .join => s.join

def pagesWhere (P : CapturePhase → Bool) (captures : List Capture) : List CapturedPage :=
  captures.filterMap (Capture.pageWhere P)

/-- The pages of the calls that took the sender. -/
def SinkSystem.taken (s : SinkSystem) : List CapturedPage := pagesWhere (·.tookSender) s.captures

end Webfang
