import Webfang.Lib.Execution
import Webfang.Lib.KeyedRows

/-!
# The registry of downloaded assets

`adapters/downloader/mod.rs`: a call of `download` takes the cell of its URL from a registry, makes
room in the registry, marks the URL as in flight and runs the download through the cell.  The two
maps, the mutex of the ledger and the cells are atomic, and an action is what one call does next.
-/

namespace Webfang.Assets

open KeyedRows StepSystem

/-! ## The maps -/

/-- An entry of `downloaded_urls`: a URL and its cell. -/
structure RegistryEntry (υ : Type) where
  url : υ
  cell : Nat
  deriving DecidableEq, Repr

/-- `InsertionLedger`. -/
structure InsertionLedger (υ : Type) where
  queue : List υ
  seen : List υ
  deriving DecidableEq, Repr

namespace InsertionLedger

variable {υ : Type} [DecidableEq υ]

def pushNew (order : InsertionLedger υ) (key : υ) : InsertionLedger υ :=
  if key ∈ order.seen then order
  else { queue := order.queue ++ [key], seen := key :: order.seen }

def requeue (order : InsertionLedger υ) (key : υ) : InsertionLedger υ :=
  { order with queue := order.queue ++ [key] }

def forget (order : InsertionLedger υ) (key : υ) : InsertionLedger υ :=
  { order with seen := order.seen.filter (· ≠ key) }

end InsertionLedger

/-! ## The calls -/

/-- Where the loop of an eviction is. -/
inductive ScanStep (υ : Type) where
  | scanning
  /-- the cell of the candidate is not initialized, and the marks are asked for it -/
  | asking (candidate : υ)
  | removing (candidate : υ)
  deriving DecidableEq, Repr

/-- The locals of `evict_over_capacity`, under the lock. -/
structure Scan (υ : Type) where
  excess : Nat
  maxScan : Nat
  evicted : Nat := 0
  scanned : Nat := 0
  deferred : List υ := []
  step : ScanStep υ := .scanning
  deriving DecidableEq, Repr

/-- What is left of a call to do; the cell is the one it has taken. -/
inductive CallPhase (υ α : Type) where
  | publishing
  /-- before `push_new` -/
  | recording (cell : Nat)
  /-- before the two checks of `evict_over_capacity` -/
  | checking (cell : Nat)
  | locking (cell : Nat)
  | evicting (cell : Nat) (scan : Scan υ)
  /-- before `InFlightGuard::new` -/
  | marking (cell : Nat)
  /-- before `get_or_try_init` -/
  | entering (cell : Nat)
  | waiting (cell : Nat)
  /-- in `run_download` -/
  | downloading (cell : Nat)
  /-- the guard is dropped next; a call that was cancelled has no result -/
  | leaving (result : Option (Except String α))
  | returned (result : Option (Except String α))

structure DownloadCall (υ α : Type) where
  url : υ
  phase : CallPhase υ α

namespace DownloadCall

variable {υ α : Type}

/-- The cell whose download the call runs. -/
def runs (call : DownloadCall υ α) : Option Nat :=
  match call.phase with
  | .downloading cell => some cell
  | _ => none

/-- The cell that the call downloads, or waits on. -/
def busyOn (call : DownloadCall υ α) : Option Nat :=
  match call.phase with
  | .waiting cell | .downloading cell => some cell
  | _ => none

/-- The URL that the call evicts next. -/
def removes (call : DownloadCall υ α) : Option υ :=
  match call.phase with
  | .evicting _ scan =>
      match scan.step with
      | .removing candidate => some candidate
      | _ => none
  | _ => none

end DownloadCall

structure AssetDownloader (υ α : Type) where
  /-- `asset_cache_capacity`; there is none where it is `usize::MAX` -/
  capacity : Option Nat
  downloadedUrls : List (RegistryEntry υ)
  /-- what the cells hold that were made so far -/
  cells : List (Option α)
  order : InsertionLedger υ
  /-- the mutex of the ledger is held -/
  locked : Bool
  inFlight : List υ
  calls : List (DownloadCall υ α)

inductive AssetAction (υ α : Type) where
  /-- a call of `download`, up to the fast path -/
  | download (url : υ)
  /-- a call goes on up to its next access to what is shared -/
  | advance (i : Nat)
  /-- the download of a call is over -/
  | finish (i : Nat) (result : Except String α)
  /-- a call that awaits is dropped -/
  | cancel (i : Nat)

namespace AssetDownloader

variable {υ α : Type} [DecidableEq υ]

def new (capacity : Option Nat) : AssetDownloader υ α where
  capacity := capacity
  downloadedUrls := []
  cells := []
  order := ⟨[], []⟩
  locked := false
  inFlight := []
  calls := []

/-- `downloaded_urls.get`. -/
def registered (s : AssetDownloader υ α) (url : υ) : Option Nat :=
  (rowAt RegistryEntry.url s.downloadedUrls url).map RegistryEntry.cell

/-- `OnceCell::get`. -/
def asset (s : AssetDownloader υ α) (cell : Nat) : Option α := s.cells[cell]?.join

def move (s : AssetDownloader υ α) (i : Nat) (call : DownloadCall υ α) (phase : CallPhase υ α) :
    AssetDownloader υ α :=
  { s with calls := s.calls.set i { call with phase } }

/-! ## One call -/

/-- The fast path of `download`. -/
def fastPath (s : AssetDownloader υ α) (url : υ) : CallPhase υ α :=
  match (s.registered url).bind s.asset with
  | some asset => .returned (some (.ok asset))
  | none => .publishing

/-- `entry(key).or_insert_with(…)`. -/
def publish (s : AssetDownloader υ α) (url : υ) : AssetDownloader υ α × Nat :=
  match s.registered url with
  | some cell => (s, cell)
  | none =>
      ({ s with
        downloadedUrls := s.downloadedUrls ++ [⟨url, s.cells.length⟩]
        cells := s.cells ++ [none] }, s.cells.length)

/-- The loop of the eviction is left: what was deferred is queued again, and the lock is free. -/
def endScan (s : AssetDownloader υ α) (deferred : List υ) : AssetDownloader υ α :=
  { s with order := deferred.foldl InsertionLedger.requeue s.order, locked := false }

/-- What the cell of a candidate says; where it is not initialized, the marks are asked. -/
def classify (s : AssetDownloader υ α) (candidate : υ) : ScanStep υ :=
  match s.registered candidate with
  | some cell => if (s.asset cell).isSome then .removing candidate else .asking candidate
  | none => .removing candidate

/-- One turn of the loop, up to the state of the candidate. -/
def popCandidate (s : AssetDownloader υ α) (i : Nat) (call : DownloadCall υ α) (cell : Nat)
    (scan : Scan υ) : AssetDownloader υ α :=
  if scan.evicted < scan.excess ∧ scan.scanned < scan.maxScan then
    match s.order.queue with
    | [] => (s.endScan scan.deferred).move i call (.marking cell)
    | candidate :: queue =>
        { s with order := { s.order with queue } }.move i call (.evicting cell
          { scan with scanned := scan.scanned + 1, step := s.classify candidate })
  else (s.endScan scan.deferred).move i call (.marking cell)

/-- A turn of the loop of `evict_over_capacity`. -/
def evict (s : AssetDownloader υ α) (i : Nat) (call : DownloadCall υ α) (cell : Nat)
    (scan : Scan υ) : AssetDownloader υ α :=
  match scan.step with
  | .scanning => s.popCandidate i call cell scan
  | .asking candidate =>
      if candidate ∈ s.inFlight then
        s.move i call (.evicting cell
          { scan with deferred := scan.deferred ++ [candidate], step := .scanning })
      else s.move i call (.evicting cell { scan with step := .removing candidate })
  | .removing candidate =>
      { s with
        downloadedUrls := s.downloadedUrls.filter fun entry => entry.url ≠ candidate
        order := s.order.forget candidate }.move i call
          (.evicting cell { scan with evicted := scan.evicted + 1, step := .scanning })

/-- Some call runs the download of a cell. -/
def isRunning (s : AssetDownloader υ α) (cell : Nat) : Bool :=
  s.calls.any fun call => call.runs = some cell

/-- What a call does next, where it can go on. -/
def advance (s : AssetDownloader υ α) (i : Nat) (call : DownloadCall υ α) :
    Option (AssetDownloader υ α) :=
  match call.phase with
  | .publishing =>
      let (published, cell) := s.publish call.url
      some (published.move i call (.recording cell))
  | .recording cell =>
      match s.capacity with
      | none => some (s.move i call (.checking cell))
      | some _ =>
          if s.locked then none
          else some ({ s with order := s.order.pushNew call.url }.move i call (.checking cell))
  | .checking cell =>
      if s.capacity.all (s.downloadedUrls.length ≤ ·) then some (s.move i call (.marking cell))
      else some (s.move i call (.locking cell))
  | .locking cell =>
      if s.locked then none
      else
        let scan : Scan υ :=
          { excess := s.downloadedUrls.length - s.capacity.getD 0, maxScan := s.order.queue.length }
        some ({ s with locked := true }.move i call (.evicting cell scan))
  | .evicting cell scan => some (s.evict i call cell scan)
  | .marking cell =>
      some ({ s with inFlight := s.inFlight.insert call.url }.move i call (.entering cell))
  | .entering cell =>
      match s.asset cell with
      | some asset => some (s.move i call (.leaving (some (.ok asset))))
      | none => some (s.move i call (.waiting cell))
  | .waiting cell =>
      match s.asset cell with
      | some asset => some (s.move i call (.leaving (some (.ok asset))))
      | none => if s.isRunning cell then none else some (s.move i call (.downloading cell))
  | .downloading _ => none
  | .leaving result =>
      some ({ s with inFlight := s.inFlight.filter (· ≠ call.url) }.move i call (.returned result))
  | .returned _ => none

/-- The cell is set by a download that succeeds. -/
def finish (s : AssetDownloader υ α) (i : Nat) (call : DownloadCall υ α) (cell : Nat)
    (result : Except String α) : AssetDownloader υ α :=
  match result with
  | .ok asset => { s with cells := s.cells.set cell (some asset) }.move i call (.leaving (some result))
  | .error _ => s.move i call (.leaving (some result))

end AssetDownloader

def assetStep {υ α : Type} [DecidableEq υ] (s : AssetDownloader υ α) :
    AssetAction υ α → Option (AssetDownloader υ α)
  | .download url => some { s with calls := s.calls ++ [⟨url, s.fastPath url⟩] }
  | .advance i => s.calls[i]?.bind fun call => s.advance i call
  | .finish i result =>
      match s.calls[i]? with
      | some ⟨url, .downloading cell⟩ => some (s.finish i ⟨url, .downloading cell⟩ cell result)
      | _ => none
  | .cancel i =>
      match s.calls[i]? with
      | some ⟨url, .waiting cell⟩ => some (s.move i ⟨url, .waiting cell⟩ (.leaving none))
      | some ⟨url, .downloading cell⟩ => some (s.move i ⟨url, .downloading cell⟩ (.leaving none))
      | _ => none

/-! ## Single flight -/

namespace AssetDownloader

variable {υ α : Type} [DecidableEq υ]

/-- At most one download runs for a URL; a cell without an asset on which a call downloads or waits
is the one that is registered; and no download runs for a URL whose asset is registered. -/
structure SingleFlight (s : AssetDownloader υ α) : Prop where
  once : ∀ (i j : Nat) (call other : DownloadCall υ α), s.calls[i]? = some call →
    s.calls[j]? = some other → call.runs.isSome → other.runs.isSome → call.url = other.url → i = j
  kept : ∀ call ∈ s.calls, ∀ cell ∈ call.busyOn, s.asset cell = none →
    s.registered call.url = some cell
  missing : ∀ call ∈ s.calls, call.runs.isSome → (s.registered call.url).bind s.asset = none

/-- Some call downloads a URL, or waits on it, and its cell is without an asset. -/
def IsBusy (s : AssetDownloader υ α) (url : υ) : Prop :=
  ∃ call ∈ s.calls, call.url = url ∧ ∃ cell ∈ call.busyOn, s.asset cell = none

/-- An eviction that asks for a URL which is busy finds its mark, and a call that comes to a cell
without an asset finds it registered still, and no eviction about to remove its URL. -/
def ProtectsCells (s : AssetDownloader υ α) : AssetAction υ α → Prop
  | .advance i => ∀ call ∈ s.calls[i]?,
      match call.phase with
      | .evicting _ scan =>
          ∀ candidate, scan.step = .asking candidate → s.IsBusy candidate →
            candidate ∈ s.inFlight
      | .entering cell => s.asset cell = none →
          s.registered call.url = some cell ∧
            ∀ other ∈ s.calls, other.removes ≠ some call.url
      | _ => True
  | _ => True

end AssetDownloader

end Webfang.Assets
