import Webfang.Assets.AssetBatch
import Webfang.Domain.Record

/-!
# One download and its files

`download_with_retry` and `download_once` of `adapters/downloader/mod.rs`: a response is streamed to
a temporary file, which is renamed in the end, and an attempt that fails for a transient reason is
repeated.  An action is what the network, the file system or the caller does next; the caller may
drop the download wherever it waits, and what the file system was asked for by then may still be
done.
-/

namespace Webfang.Assets

open Webfang.Output StepSystem

/-! ## Errors -/

/-- `std::io::ErrorKind`; the kinds that are retried are named. -/
inductive IoKind where
  | interrupted
  | wouldBlock
  | timedOut
  | other
  deriving DecidableEq, Repr

inductive AssetError where
  /-- with what `is_transient_network` tells of the cause -/
  | network (transient : Bool)
  | http (status : Nat)
  | io (kind : IoKind)
  | payloadTooLarge
  | internal
  deriving DecidableEq, Repr

/-- `ScraperError::classify`. -/
def AssetError.classify : AssetError → ErrorClass
  | .network transient => if transient then .transientRetriable else .internalFatal
  | .http status =>
      if 500 ≤ status then .transientRetriable
      else if status = 429 then .transientBackoff
      else .permanentFatal
  | .io kind => if kind = .other then .permanentFatal else .transientRetriable
  | .payloadTooLarge => .permanentFatal
  | .internal => .internalFatal

/-! ## The download -/

/-- What an attempt holds from the headers on. -/
structure Transfer where
  contentType : Option (List Char)
  contentDisposition : Option (List Char)
  tempPath : List Char
  downloaded : Nat
  /-- what the hasher was given -/
  hashed : List UInt8
  deriving DecidableEq

inductive StreamPhase where
  | sending
  /-- `File::create` of the temporary file -/
  | creating (transfer : Transfer)
  | streaming (transfer : Transfer)
  /-- `remove_file`, beyond the limit -/
  | discarding (transfer : Transfer)
  | writing (transfer : Transfer) (chunk : List UInt8)
  | syncing (transfer : Transfer)
  /-- `rename` to the final path -/
  | moving (transfer : Transfer) (finalPath : List Char)
  /-- the sleep before the next attempt -/
  | backoff
  | returned (result : Except AssetError DownloadedAsset)
  | cancelled

structure AssetStream where
  files : List Char → Option (List UInt8)
  attempt : Nat
  /-- the chunks that the stream of the attempt has given -/
  given : List (List UInt8)
  phase : StreamPhase

/-- What a call of the file system comes to. -/
abbrev IoOutcome := Except IoKind Unit

inductive StreamAction where
  | sendFails (transient : Bool)
  /-- the status and the headers, and a new UUID -/
  | respond (status : Nat) (contentType contentDisposition : Option (List Char))
    (uuid : List Char)
  /-- the subdirectory and the temporary file are made -/
  | create (outcome : IoOutcome)
  | chunk (bytes : List UInt8)
  | streamFails (transient : Bool)
  | streamEnds
  /-- `write_all`; where it fails, the file may hold some of the chunk -/
  | write (outcome : IoOutcome) (partly : List UInt8)
  | remove (outcome : IoOutcome)
  | sync (outcome : IoOutcome)
  | rename (outcome : IoOutcome)
  | wake
  /-- the download is dropped, and the call under way is done, or is not -/
  | cancel (done : Bool)

/-- `std::fs::rename`. -/
def renameFile (files : List Char → Option (List UInt8)) (source target : List Char) :
    List Char → Option (List UInt8) :=
  if source = target then files
  else Function.update (Function.update files target (files source)) source none

section Stream

variable (cfg : DownloadConfig) (maxRetries : Nat) (tools : AssetTools) (url : Output.ValidUrl)

namespace AssetStream

def new (files : List Char → Option (List UInt8)) : AssetStream where
  files := files
  attempt := 0
  given := []
  phase := .sending

/-- An attempt fails: the download is over, or waits for the next one. -/
def fail (s : AssetStream) (e : AssetError) : AssetStream :=
  if e.classify ≠ .transientRetriable ∨ s.attempt = maxRetries then
    { s with phase := .returned (.error e) }
  else { s with phase := .backoff }

def failIo (s : AssetStream) (kind : IoKind) : AssetStream := s.fail maxRetries (.io kind)

end AssetStream

/-- The response as far as names are made of it. -/
def Transfer.response (transfer : Transfer) : AssetResponse :=
  ⟨transfer.contentType, transfer.contentDisposition, transfer.hashed⟩

def tempPath (uuid : List Char) : List Char := join (subdirPath cfg url) (uuid ++ ".tmp".toList)

/-- The name that the asset gets: the plain one, where it is free. -/
def finalPath (files : List Char → Option (List UInt8)) (transfer : Transfer) : List Char :=
  let path := plainPath cfg tools url transfer.response
  if (files path).isSome then disambiguatedPath cfg tools url transfer.response else path

namespace AssetStream

/-- The headers; a UUID is new, so no file has the name of the temporary one. -/
def respond (s : AssetStream) (status : Nat) (contentType contentDisposition : Option (List Char))
    (uuid : List Char) : Option AssetStream :=
  if ¬ (200 ≤ status ∧ status ≤ 299) then some (s.fail maxRetries (.http status))
  else if (s.files (tempPath cfg url uuid)).isSome then none
  else
    some { s with
      given := []
      phase := .creating ⟨contentType, contentDisposition, tempPath cfg url uuid, 0, []⟩ }

/-- A chunk comes; the count is a `u64`. -/
def chunk (s : AssetStream) (transfer : Transfer) (bytes : List UInt8) : AssetStream :=
  let s := { s with given := s.given ++ [bytes] }
  if bytes.isEmpty then s
  else
    let downloaded := transfer.downloaded + bytes.length
    if 0xFFFFFFFFFFFFFFFF < downloaded then s.fail maxRetries .internal
    else if cfg.maxFileSize < downloaded then { s with phase := .discarding transfer }
    else { s with phase := .writing { transfer with downloaded } bytes }

/-- What a call that was under way has done when the download is dropped. -/
def settle (s : AssetStream) : AssetStream :=
  match s.phase with
  | .creating transfer => { s with files := Function.update s.files transfer.tempPath (some []) }
  | .discarding transfer => { s with files := Function.update s.files transfer.tempPath none }
  | .writing transfer bytes =>
      { s with
        files := Function.update s.files transfer.tempPath (some (transfer.hashed ++ bytes)) }
  | .moving transfer finalPath =>
      { s with files := renameFile s.files transfer.tempPath finalPath }
  | _ => s

def isOver (s : AssetStream) : Bool :=
  match s.phase with
  | .returned _ | .cancelled => true
  | _ => false

end AssetStream

def streamStep (s : AssetStream) (action : StreamAction) : Option AssetStream :=
  match action, s.phase with
  | .sendFails transient, .sending => some (s.fail maxRetries (.network transient))
  | .respond status contentType contentDisposition uuid, .sending =>
      s.respond cfg maxRetries url status contentType contentDisposition uuid
  | .create (.ok _), .creating transfer => some { s.settle with phase := .streaming transfer }
  | .create (.error kind), .creating _ => some (s.failIo maxRetries kind)
  | .chunk bytes, .streaming transfer => some (s.chunk cfg maxRetries transfer bytes)
  | .streamFails transient, .streaming _ => some (s.fail maxRetries (.network transient))
  | .streamEnds, .streaming transfer => some { s with phase := .syncing transfer }
  | .write (.ok _) _, .writing transfer bytes =>
      some { s.settle with
        phase := .streaming { transfer with hashed := transfer.hashed ++ bytes } }
  | .write (.error kind) partly, .writing transfer _ =>
      let files := Function.update s.files transfer.tempPath (some (transfer.hashed ++ partly))
      some ({ s with files }.failIo maxRetries kind)
  | .remove (.ok _), .discarding _ => some (s.settle.fail maxRetries .payloadTooLarge)
  | .remove (.error _), .discarding _ => some (s.fail maxRetries .payloadTooLarge)
  | .sync (.ok _), .syncing transfer =>
      some { s with phase := .moving transfer (finalPath cfg tools url s.files transfer) }
  | .sync (.error kind), .syncing _ => some (s.failIo maxRetries kind)
  | .rename (.ok _), .moving transfer finalPath =>
      let asset := { downloadedAsset tools url transfer.response finalPath with
        size := transfer.downloaded }
      some { s.settle with phase := .returned (.ok asset) }
  | .rename (.error kind), .moving _ _ => some (s.failIo maxRetries kind)
  | .wake, .backoff => some { s with attempt := s.attempt + 1, phase := .sending }
  | .cancel done, _ =>
      if s.isOver then none
      else some { (if done then s.settle else s) with phase := .cancelled }
  | _, _ => none

end Stream

/-! ## What is left behind -/

namespace AssetStream

/-- The download has returned `Err`, or was dropped. -/
def HasFailed (s : AssetStream) : Prop :=
  s.phase = .cancelled ∨ ∃ e, s.phase = .returned (.error e)

/-- No file is there that was not there before. -/
def LeavesNothing (old : List Char → Option (List UInt8)) (s : AssetStream) : Prop :=
  ∀ path, (s.files path).isSome → (old path).isSome

/-- Behind the creation of the temporary file, an attempt fails at the size limit alone, and the
file can be removed there; the download is dropped before the creation or between two attempts,
where the file is not made after all; or where it is removed, or renamed to a file that was there
before. -/
def CleansUp (old : List Char → Option (List UInt8)) (s : AssetStream) : StreamAction → Prop
  | .streamFails _ | .write (.error _) _ | .sync (.error _) | .rename (.error _) => False
  | .remove outcome => outcome = .ok ()
  | .chunk bytes =>
      match s.phase with
      | .streaming transfer => transfer.downloaded + bytes.length ≤ 0xFFFFFFFFFFFFFFFF
      | _ => True
  | .cancel done =>
      match s.phase with
      | .creating _ => done = false
      | .discarding _ => done = true
      | .streaming _ | .writing _ _ | .syncing _ => False
      | .moving _ finalPath => done = true ∧ (old finalPath).isSome
      | _ => True
  | _ => True

end AssetStream

end Webfang.Assets
