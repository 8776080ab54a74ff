import Mathlib.Logic.Function.Basic
import Webfang.Assets.AssetNames
import Webfang.Lib.Execution
import Webfang.Lib.Parties

/-!
# A batch of downloads

`adapters/downloader/mod.rs`: the downloads of a batch are in progress side by side.  Each streams
its response to a temporary file, looks whether a file has its name, and renames the temporary
file.  A batch keeps its assets apart just when no rename falls on other contents.
-/

namespace Webfang.Assets

open Webfang.Output StepSystem Parties

/-! ## The batch -/

/-- The fields of `DownloadConfig` that say where an asset is saved. -/
structure DownloadConfig where
  outputDir : List Char
  imagesDir : List Char
  documentsDir : List Char
  maxFileSize : Nat
  concurrencyLimit : Nat
  assetNaming : AssetNamingStrategy
  /-- `url_matches_filters` of the patterns -/
  matchesFilters : Output.ValidUrl → Bool

/-- A response of success. -/
structure AssetResponse where
  contentType : Option (List Char)
  contentDisposition : Option (List Char)
  body : List UInt8
  deriving DecidableEq

structure DownloadedAsset where
  url : List Char
  localPath : List Char
  mimeType : Option (List Char)
  size : Nat
  contentHash : List Char
  deriving DecidableEq

inductive AssetPhase where
  | queued
  /-- a request is under way, or the next attempt -/
  | fetching
  /-- the temporary file holds the body -/
  | streamed (response : AssetResponse)
  /-- the path is chosen; it was found free, or is the disambiguated one -/
  | renaming (response : AssetResponse) (finalPath : List Char) (foundFree : Bool)
  | failed (error : String)
  | returned (response : AssetResponse) (asset : DownloadedAsset)
  deriving DecidableEq

structure AssetDownload where
  url : Output.ValidUrl
  phase : AssetPhase

structure AssetBatch where
  files : List Char → Option (List UInt8)
  downloads : List AssetDownload

inductive BatchAction where
  /-- the next download in order is started -/
  | start (i : Nat)
  /-- the last attempt fails; one that is repeated leaves nothing but its temporary file -/
  | fail (i : Nat) (error : String)
  /-- the response is streamed to its end, or beyond the limit -/
  | stream (i : Nat) (response : AssetResponse)
  /-- `final_path.exists()` -/
  | check (i : Nat)
  | rename (i : Nat)
  deriving DecidableEq

section Batch

variable (cfg : DownloadConfig) (tools : AssetTools)

def subdirPath (url : Output.ValidUrl) : List Char :=
  join cfg.outputDir (if isImageUrl url then cfg.imagesDir else cfg.documentsDir)

def filenameFor (url : Output.ValidUrl) (response : AssetResponse) : List Char :=
  generateFilename tools.names cfg.assetNaming url (tools.sha256Hex response.body)
    response.contentType
    (response.contentDisposition.bind (parseContentDispositionHeader tools.names))

/-- The path of an asset, where it is free. -/
def plainPath (url : Output.ValidUrl) (response : AssetResponse) : List Char :=
  join (subdirPath cfg url) (filenameFor cfg tools url response)

/-- The path of an asset, where the plain one is not free. -/
def disambiguatedPath (url : Output.ValidUrl) (response : AssetResponse) : List Char :=
  resolveCollision (subdirPath cfg url) (filenameFor cfg tools url response)
    (tools.sha256Hex response.body)

/-- `DownloadedAsset`. -/
def downloadedAsset (url : Output.ValidUrl) (response : AssetResponse) (finalPath : List Char) :
    DownloadedAsset where
  url := url.asStr
  localPath := finalPath
  mimeType := response.contentType
  size := response.body.length
  contentHash := (tools.sha256Hex response.body).take 12

namespace AssetBatch

/-- `download_batch`, of distinct URLs over these files. -/
def new (files : List Char → Option (List UInt8)) (urls : List Output.ValidUrl) : AssetBatch where
  files := files
  downloads := (urls.filter cfg.matchesFilters).map fun url => ⟨url, .queued⟩

def move (s : AssetBatch) (i : Nat) (d : AssetDownload) (phase : AssetPhase) : AssetBatch :=
  { s with downloads := s.downloads.set i { d with phase } }

end AssetBatch

namespace AssetPhase

def inProgress : AssetPhase → Bool
  | .fetching | .streamed _ | .renaming _ _ _ => true
  | .queued | .failed _ | .returned _ _ => false

end AssetPhase

/-- `buffer_unordered`: the downloads are started in order, at most so many at a time. -/
def canStart (s : AssetBatch) (i : Nat) : Bool :=
  (s.downloads.take i).all (·.phase ≠ .queued) &&
    s.downloads.countP (·.phase.inProgress) < cfg.concurrencyLimit

def batchStep (s : AssetBatch) : BatchAction → Option AssetBatch
  | .start i =>
      match s.downloads[i]? with
      | some ⟨url, .queued⟩ => if canStart cfg s i then some (s.move i ⟨url, .queued⟩ .fetching) else none
      | _ => none
  | .fail i error =>
      match s.downloads[i]? with
      | some ⟨url, .fetching⟩ => some (s.move i ⟨url, .fetching⟩ (.failed error))
      | some ⟨url, .renaming _ _ _⟩ => some (s.move i ⟨url, .queued⟩ (.failed error))
      | _ => none
  | .stream i response =>
      match s.downloads[i]? with
      | some ⟨url, .fetching⟩ =>
          some (s.move i ⟨url, .fetching⟩
            (if cfg.maxFileSize < response.body.length then .failed "PayloadTooLarge"
              else .streamed response))
      | _ => none
  | .check i =>
      match s.downloads[i]? with
      | some ⟨url, .streamed response⟩ =>
          let finalPath := plainPath cfg tools url response
          some (s.move i ⟨url, .streamed response⟩
            (if (s.files finalPath).isSome then
              .renaming response (disambiguatedPath cfg tools url response) false
            else .renaming response finalPath true))
      | _ => none
  | .rename i =>
      match s.downloads[i]? with
      | some ⟨url, .renaming response finalPath foundFree⟩ =>
          some ({ s with files := Function.update s.files finalPath (some response.body) }.move i
            ⟨url, .renaming response finalPath foundFree⟩
              (.returned response (downloadedAsset tools url response finalPath)))
      | _ => none

end Batch

/-! ## Assets that are kept -/

namespace AssetBatch

/-- Each asset that was returned is at its path, and the old files are as they were. -/
def KeepsBytes (old : List Char → Option (List UInt8)) (s : AssetBatch) : Prop :=
  (∀ d ∈ s.downloads, ∀ response asset, d.phase = .returned response asset →
    s.files asset.localPath = some response.body) ∧
    ∀ path bytes, old path = some bytes → s.files path = some bytes

/-- A rename to a path that was found free comes before all others of other contents to that path,
and the disambiguated path is free, or holds the same contents. -/
def RenamesApart (s : AssetBatch) : BatchAction → Prop
  | .rename i => ∀ d ∈ s.downloads[i]?, ∀ response finalPath foundFree,
      d.phase = .renaming response finalPath foundFree →
        if foundFree then
          ∀ other ∈ s.downloads, ∀ response' asset, other.phase = .returned response' asset →
            asset.localPath = finalPath → response'.body = response.body
        else ∀ bytes ∈ s.files finalPath, bytes = response.body
  | _ => True

end AssetBatch

end Webfang.Assets
