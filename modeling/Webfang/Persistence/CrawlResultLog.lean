import Webfang.Lib.Execution
import Webfang.Lib.Framing

/-!
# The crawl-result log

`application/crawl_result_repository.rs`: scraped contents in length-prefixed frames, appended by
one background writer, and an index from URLs to the positions of their frames.  A list of
actions is a sequence of processes over one file: what is saved and refused, what the writer
appends whole or tears, and the kills after which the next process recovers its index.
-/

namespace Webfang

open Framing

/-- How serde_json writes a `ScrapedContent` and reads it, and the `url` field it finds. -/
structure ContentCodec (γ υ : Type) where
  toJson : γ → List UInt8
  fromJson : List UInt8 → Option γ
  /-- `get("url")` of the payload as a JSON value, as a string -/
  urlField : List UInt8 → Option υ
  url : γ → υ

/-- What is written is read back. -/
structure ContentCodec.Lawful {γ υ : Type} (codec : ContentCodec γ υ) : Prop where
  reads : ∀ content, codec.fromJson (codec.toJson content) = some content
  readsUrl : ∀ content, codec.urlField (codec.toJson content) = some (codec.url content)

/-- The reads of a log that can fail. -/
inductive StorageError
  | openLog
  | length
  | payload
  | deserialize
  deriving DecidableEq, Repr

/-- `CrawlResultRepositoryImpl` with its writer, over the log file. -/
structure ResultLog (γ υ : Type) where
  file : Option (List UInt8)
  index : υ → Option Nat
  /-- the offset the writer tracks, once it has opened the file -/
  offset : Option Nat
  writeError : Bool
  /-- the writer takes commands -/
  running : Bool
  queue : List γ
  /-- the contents whose frames were written whole, in order -/
  written : List γ

inductive LogAction (γ : Type)
  | save (content : γ)
  /-- the writer appends its next record -/
  | write
  /-- the write fails behind these many bytes; the size of the file can be read or not -/
  | tear (bytes : Nat) (sized : Bool)
  /-- the log cannot be opened for the first record -/
  | openFails (created : Bool)
  /-- the queue is drained and the writer joined -/
  | shutdown
  /-- the process ends, with these many bytes of its next record on disk, and another one opens
  the log -/
  | restart (bytes : Nat)
  deriving DecidableEq, Repr

section Log

variable {γ υ : Type} [DecidableEq υ] (codec : ContentCodec γ υ)

/-- `recover_index`. -/
def recoverIndex (bytes : List UInt8) : υ → Option Nat :=
  (scan bytes).foldl (fun index entry =>
    match codec.urlField entry.2 with
    | some url => Function.update index url (some entry.1)
    | none => index) fun _ => none

namespace ResultLog

variable {codec}

def bytes (s : ResultLog γ υ) : List UInt8 := s.file.getD []

variable (codec)

/-- `CrawlResultRepositoryImpl::new`. -/
def new (file : Option (List UInt8)) (written : List γ) : ResultLog γ υ where
  file := file
  index := (file.map (recoverIndex codec)).getD fun _ => none
  offset := none
  writeError := false
  running := true
  queue := []
  written := written

/-- The offset of the next append: the one tracked, or the size of a file just opened. -/
def nextOffset (s : ResultLog γ υ) : Nat := s.offset.getD s.bytes.length

/-- `append_record` of a frame that is written. -/
def appendRecord (s : ResultLog γ υ) (content : γ) (rest : List γ) : ResultLog γ υ :=
  let payload := codec.toJson content
  { s with
    file := some (s.bytes ++ frame payload)
    index := Function.update s.index (codec.url content) (some s.nextOffset)
    offset := some (s.nextOffset + 4 + payload.length % 4294967296 + 1)
    queue := rest
    written := s.written ++ [content] }

/-- `append_record` of a frame whose write fails. -/
def tearRecord (s : ResultLog γ υ) (content : γ) (rest : List γ) (n : Nat) (sized : Bool) :
    ResultLog γ υ :=
  let file := s.bytes ++ (frame (codec.toJson content)).take n
  { s with
    file := some file
    offset := some (if sized then file.length else s.nextOffset)
    writeError := true
    queue := rest }

/-- What a kill leaves of the next record. -/
def killed (s : ResultLog γ υ) (content : γ) (n : Nat) : ResultLog γ υ :=
  { s with
    file := if n = 0 then s.file else some (s.bytes ++ (frame (codec.toJson content)).take n)
    written := if n = (frame (codec.toJson content)).length then s.written ++ [content]
      else s.written }

/-- `find_by_url`. -/
def findByUrl (s : ResultLog γ υ) (url : υ) : Except StorageError (Option γ) :=
  match s.index url, s.file with
  | none, _ => .ok none
  | some _, none => .error .openLog
  | some offset, some file =>
      match readExact 4 (file.drop offset) with
      | none => .error .length
      | some (length, rest) =>
          match readExact (ofBytes length) rest with
          | none => .error .payload
          | some (payload, _) =>
              match codec.fromJson payload with
              | none => .error .deserialize
              | some content => .ok (some content)

/-- `load_all`. -/
def loadAll (s : ResultLog γ υ) : Except StorageError (List γ) :=
  match s.file with
  | none => .ok []
  | some file => (scan file).mapM fun entry =>
      match codec.fromJson entry.2 with
      | none => .error .deserialize
      | some content => .ok content

end ResultLog

/-- One action of a sequence of processes. -/
def logStep (s : ResultLog γ υ) : LogAction γ → Option (ResultLog γ υ)
  | .save content => some (if s.writeError then s else { s with queue := s.queue ++ [content] })
  | .write =>
      match s.queue with
      | [] => none
      | content :: rest => if s.running then some (s.appendRecord codec content rest) else none
  | .tear n sized =>
      match s.queue with
      | [] => none
      | content :: rest =>
          if s.running ∧ n < (frame (codec.toJson content)).length then
            some (s.tearRecord codec content rest n sized)
          else none
  | .openFails created =>
      -- the writer leaves, and what is queued is dropped
      if s.offset = none ∧ s.queue ≠ [] ∧ s.running then
        some { s with
          file := if created then some s.bytes else s.file
          writeError := true
          running := false
          queue := [] }
      else none
  | .shutdown =>
      if s.queue = [] then some { s with writeError := true, running := false } else none
  | .restart n =>
      match s.queue with
      | [] => if n = 0 then some (.new codec s.file s.written) else none
      | content :: _ =>
          if n = 0 ∨ (s.running ∧ n ≤ (frame (codec.toJson content)).length) then
            some (.new codec (s.killed codec content n).file (s.killed codec content n).written)
          else none

/-- No log file yet. -/
def ResultLog.init : ResultLog γ υ := .new codec none []

end Log

end Webfang
