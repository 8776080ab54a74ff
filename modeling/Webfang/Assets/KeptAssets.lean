import Webfang.Assets.AssetBatch
import Webfang.Output.SavedPages

/-!
# Assets that are not overwritten

What stands at a path was there before the batch, or is what a download that has returned has
renamed to it.  So a rename does harm just where it falls on other contents.
-/

namespace Webfang.Assets

open Webfang.Output StepSystem Parties

namespace AssetBatch

variable {cfg : DownloadConfig} {tools : AssetTools} {old : List Char → Option (List UInt8)}
  {s t : AssetBatch} {i : Nat} {d : AssetDownload}

/-- What every interleaving keeps. -/
structure Sound (old : List Char → Option (List UInt8)) (s : AssetBatch) : Prop where
  /-- no file goes -/
  stay : ∀ path, (old path).isSome → (s.files path).isSome
  /-- a file was there before, or a download has renamed it -/
  source : ∀ path bytes, s.files path = some bytes → old path = some bytes ∨
    ∃ d ∈ s.downloads, ∃ response asset, d.phase = .returned response asset ∧
      asset.localPath = path ∧ response.body = bytes
  /-- a path that was found free was free before the batch -/
  free : ∀ d ∈ s.downloads, ∀ response path, d.phase = .renaming response path true → old path = none

theorem sound_new (cfg : DownloadConfig) (old : List Char → Option (List UInt8))
    (urls : List Output.ValidUrl) : (AssetBatch.new cfg old urls).Sound old where
  stay _ there := there
  source _ _ there := .inl there
  free d inside response path phase := by
    obtain ⟨url, -, rfl⟩ := List.mem_map.mp inside
    cases phase

theorem keepsBytes_new (cfg : DownloadConfig) (old : List Char → Option (List UInt8))
    (urls : List Output.ValidUrl) : (AssetBatch.new cfg old urls).KeepsBytes old where
  left d inside response asset phase := by
    obtain ⟨url, -, rfl⟩ := List.mem_map.mp inside
    cases phase
  right _ _ there := there

/-! ## Steps beside the files -/

/-- A download that has not returned moves on, and the files stay. -/
theorem Sound.move (sound : s.Sound old) (found : s.downloads[i]? = some d)
    (early : ∀ response asset, d.phase ≠ .returned response asset) {url : Output.ValidUrl}
    {phase : AssetPhase}
    (free : ∀ response path, phase = .renaming response path true → old path = none) :
    (s.move i ⟨url, .queued⟩ phase).Sound old where
  stay := sound.stay
  source path bytes there := by
    refine (sound.source path bytes there).imp_right fun ⟨other, inside, response, asset, ends⟩ => ?_
    have ne : other ≠ d := fun same => early response asset (same ▸ ends.1)
    exact ⟨other, mem_set_of_ne found inside ne _, response, asset, ends⟩
  free := forall_mem_set sound.free free

theorem keepsBytes_move {url : Output.ValidUrl} {phase : AssetPhase}
    (later : ∀ response asset, phase ≠ .returned response asset) (kept : s.KeepsBytes old) :
    (s.move i ⟨url, .queued⟩ phase).KeepsBytes old :=
  ⟨forall_mem_set kept.1 fun response asset returned => absurd returned (later response asset),
    kept.2⟩

/-- What a step does: a download moves on beside the files, or renames its file. -/
inductive Moves (cfg : DownloadConfig) (tools : AssetTools) (s : AssetBatch) :
    BatchAction → AssetBatch → Prop
  | quiet {a : BatchAction} {i : Nat} {d : AssetDownload} {phase : AssetPhase}
      (found : s.downloads[i]? = some d)
      (early : ∀ response asset, d.phase ≠ .returned response asset)
      (later : ∀ response asset, phase ≠ .returned response asset)
      (free : ∀ response path, phase = .renaming response path true → s.files path = none)
      (apart : ∀ j, a ≠ .rename j) :
      Moves cfg tools s a (s.move i ⟨d.url, .queued⟩ phase)
  | rename {i : Nat} {url : Output.ValidUrl} {response : AssetResponse} {path : List Char}
      {free : Bool}
      (found : s.downloads[i]? = some ⟨url, .renaming response path free⟩) :
      Moves cfg tools s (.rename i)
        ({ s with files := Function.update s.files path (some response.body) }.move i
          ⟨url, .queued⟩ (.returned response (downloadedAsset tools url response path)))

theorem moves_of_step {a : BatchAction} (step : batchStep cfg tools s a = some t) :
    Moves cfg tools s a t := by
  cases a with
  | start i =>
      simp only [batchStep] at step
      split at step
      next url found =>
          split at step
          · cases step
            exact .quiet found (by simp) (by simp) (by simp) (by simp)
          · cases step
      next => cases step
  | fail i error =>
      simp only [batchStep] at step
      split at step
      next url found =>
          cases step
          exact .quiet found (by simp) (by simp) (by simp) (by simp)
      next url _ _ _ found =>
          cases step
          exact .quiet found (by simp) (by simp) (by simp) (by simp)
      next => cases step
  | stream i response =>
      simp only [batchStep] at step
      split at step
      next url found =>
          cases step
          refine .quiet found (by simp) ?_ ?_ (by simp)
          · intro other asset
            split <;> simp
          · intro other path
            split <;> simp
      next => cases step
  | check i =>
      simp only [batchStep] at step
      split at step
      next url response found =>
          cases step
          refine .quiet found (by simp) ?_ ?_ (by simp)
          · intro other asset
            split <;> simp
          · intro other path phase
            split at phase
            next => cases phase
            next free =>
                cases phase
                exact Option.not_isSome_iff_eq_none.mp free
      next => cases step
  | rename i =>
      simp only [batchStep] at step
      split at step
      next url response path free found =>
          cases step
          exact .rename found
      next => cases step

/-! ## Renames -/

theorem Sound.step (sound : s.Sound old) {a : BatchAction}
    (step : batchStep cfg tools s a = some t) : t.Sound old := by
  cases moves_of_step step with
  | quiet found early later free apart =>
      refine sound.move found early fun response path phase => ?_
      by_contra there
      have stays := sound.stay path (Option.isSome_iff_ne_none.mpr there)
      rw [free response path phase] at stays
      cases stays
  | @rename i url response path foundFree found =>
      have inside := mem_set_self found
        ⟨url, .returned response (downloadedAsset tools url response path)⟩
      refine ⟨fun other there => ?_, fun other bytes there => ?_,
        forall_mem_set sound.free (by simp)⟩
      · change (Function.update s.files path _ other).isSome
        rw [Function.update_apply]
        split
        · rfl
        · exact sound.stay other there
      · change Function.update s.files path _ other = some bytes at there
        rw [Function.update_apply] at there
        split at there
        next same =>
            cases there
            exact .inr ⟨_, inside, response, _, rfl, same.symm, rfl⟩
        next =>
            have early : ∀ response' asset, (AssetDownload.mk url
                (.renaming response path foundFree)).phase ≠ .returned response' asset := by simp
            have moved : (s.move i ⟨url, .queued⟩
                (.returned response (downloadedAsset tools url response path))).Sound old :=
              sound.move found early (by simp)
            exact moved.source other bytes there

/-- A rename keeps the bytes just when it falls on no other contents. -/
theorem keepsBytes_rename_iff (sound : s.Sound old) (kept : s.KeepsBytes old)
    {url : Output.ValidUrl} {response : AssetResponse} {path : List Char} {foundFree : Bool}
    (found : s.downloads[i]? = some ⟨url, .renaming response path foundFree⟩) :
    ({ s with files := Function.update s.files path (some response.body) }.move i ⟨url, .queued⟩
      (.returned response (downloadedAsset tools url response path))).KeepsBytes old ↔
      s.RenamesApart (.rename i) := by
  have others {d : AssetDownload} (inside : d ∈ s.downloads) {response' : AssetResponse}
      {asset : DownloadedAsset} (phase : d.phase = .returned response' asset) :
      d ∈ s.downloads.set i ⟨url, .returned response
        (downloadedAsset tools url response path)⟩ := by
    refine mem_set_of_ne found inside (fun same => ?_) _
    rw [same] at phase
    cases phase
  constructor
  · intro ⟨assets, files⟩ d here response' path' free phase
    cases found.symm.trans here
    cases phase
    -- what has returned to this path has the bytes that are renamed
    have returned {d : AssetDownload} (inside : d ∈ s.downloads) {response' : AssetResponse}
        {asset : DownloadedAsset} (phase : d.phase = .returned response' asset)
        (same : asset.localPath = path) : response'.body = response.body := by
      have there := assets d (others inside phase) response' asset phase
      change Function.update s.files path _ asset.localPath = _ at there
      rw [same, Function.update_self] at there
      exact (Option.some.inj there).symm
    split
    · exact fun d inside response' asset phase same => returned inside phase same
    · intro bytes there
      rcases sound.source path bytes there with before | ⟨d, inside, response', asset, phase, same, rfl⟩
      · have stays := files path bytes before
        change Function.update s.files path _ path = _ at stays
        rw [Function.update_self] at stays
        exact (Option.some.inj stays).symm
      · exact returned inside phase same
  · intro apart
    have here := apart _ found response path foundFree rfl
    have falls (bytes : List UInt8) (there : s.files path = some bytes)
        (known : foundFree = true → ∃ d ∈ s.downloads, ∃ response' asset,
          d.phase = .returned response' asset ∧ asset.localPath = path ∧ response'.body = bytes) :
        bytes = response.body := by
      cases foundFree with
      | true =>
          obtain ⟨d, inside, response', asset, phase, same, rfl⟩ := known rfl
          exact here d inside response' asset phase same
      | false => exact here bytes there
    refine ⟨forall_mem_set (fun d inside response' asset phase => ?_) ?_, fun other bytes before => ?_⟩
    · change Function.update s.files path _ asset.localPath = _
      have stands := kept.1 d inside response' asset phase
      by_cases same : asset.localPath = path
      · rw [same] at stands ⊢
        rw [Function.update_self,
          falls _ stands fun _ => ⟨d, inside, response', asset, phase, same, rfl⟩]
      · rw [Function.update_of_ne same]
        exact stands
    · intro response' asset phase
      cases phase
      exact Function.update_self ..
    · change Function.update s.files path _ other = _
      have stands := kept.2 other bytes before
      by_cases same : other = path
      · subst same
        rw [Function.update_self, falls bytes stands fun free => ?_]
        subst free
        have none := sound.free _ (List.mem_of_getElem? found) response other rfl
        cases none.symm.trans before
      · rw [Function.update_of_ne same]
        exact stands

/-- In all states of a batch the assets and the old files are kept, just when every rename to a path
that was found free comes before those of other contents, and no disambiguated path has a file of
other contents. -/
theorem keepsBytes_reached_iff (cfg : DownloadConfig) (tools : AssetTools)
    (old : List Char → Option (List UInt8)) (urls : List Output.ValidUrl) (as : List BatchAction) :
    (∀ t, Reached (batchStep cfg tools) (AssetBatch.new cfg old urls) as t → t.KeepsBytes old) ↔
      Along (batchStep cfg tools) RenamesApart (AssetBatch.new cfg old urls) as := by
  refine reached_good_iff (I := Sound old) (fun s a t sound step => sound.step step)
    (fun s a t sound kept step => ?_) (fun s a refused => ?_) (sound_new cfg old urls)
    (keepsBytes_new cfg old urls) as
  · cases moves_of_step step with
    | quiet found early later free apart =>
        refine iff_of_true (keepsBytes_move later kept) ?_
        cases a with
        | rename j => exact absurd rfl (apart j)
        | _ => trivial
    | rename found => exact keepsBytes_rename_iff sound kept found
  · cases a with
    | rename i =>
        intro d found response path free phase
        obtain ⟨url, phase'⟩ := d
        cases phase
        rw [batchStep, show s.downloads[i]? = some _ from found] at refused
        cases refused
    | _ => trivial

/-! ## Two logos -/

def logoUrl (host path : String) (named : host.toList ≠ [] ∧ '/' ∉ host.toList)
    (rooted : path.toList.head? = some '/') (plain : '?' ∉ path.toList ∧ '#' ∉ path.toList) :
    Output.ValidUrl where
  scheme := .https
  host := host.toList
  port := none
  path := path.toList
  query := none
  fragment := none
  host_named := named
  path_rooted := rooted
  path_plain := plain

def firstLogo : Output.ValidUrl := logoUrl "a.com" "/x/logo.png" (by decide) (by decide) (by decide)

def secondLogo : Output.ValidUrl := logoUrl "b.com" "/y/logo.png" (by decide) (by decide) (by decide)

def logoResponse (byte : UInt8) : AssetResponse where
  contentType := some "image/png".toList
  contentDisposition := none
  body := [byte]

/-- Assets named after their URLs, two at a time. -/
def slugConfig : DownloadConfig where
  outputDir := "out".toList
  imagesDir := "images".toList
  documentsDir := "documents".toList
  maxFileSize := 1024
  concurrencyLimit := 2
  assetNaming := .slug
  matchesFilters _ := true

/-- The digests of the two logos. -/
def logoTools : AssetTools where
  names := asciiTools
  sha256Hex body :=
    (if body = [1] then "4bf5122f344554c53bde2ebb8cd2b7e3d1600ad631c385a5d7cce23c7785459a"
      else "dbc1b4c900ffe48d575b5da5c638040125f65db0fe3e24494b76ea986457d986").toList

/-- Both downloads look for the name before either renames its file to it. -/
def clashingDownloads : List BatchAction :=
  [.start 0, .start 1, .stream 0 (logoResponse 1), .stream 1 (logoResponse 2), .check 0, .check 1,
    .rename 0, .rename 1]

/-- Both logos are returned at one path, where the contents of the second stand. -/
theorem clashing_names_overwritten :
    ∃ t, execute (batchStep slugConfig logoTools)
        (AssetBatch.new slugConfig (fun _ => none) [firstLogo, secondLogo]) clashingDownloads =
        some t ∧
      (∀ d ∈ t.downloads, ∃ response asset, d.phase = .returned response asset) ∧
      ¬ t.KeepsBytes fun _ => none := by
  have found : ((execute (batchStep slugConfig logoTools)
      (AssetBatch.new slugConfig (fun _ => none) [firstLogo, secondLogo]) clashingDownloads).any
        fun t => t.downloads.map (·.phase) =
            [.returned (logoResponse 1) (downloadedAsset logoTools firstLogo (logoResponse 1)
                "out/images/logo.png".toList),
              .returned (logoResponse 2) (downloadedAsset logoTools secondLogo (logoResponse 2)
                "out/images/logo.png".toList)] ∧
          t.files "out/images/logo.png".toList = some [2]) = true := by
    decide +kernel
  obtain ⟨t, run, ends⟩ := (Option.any_eq_true _ _).mp found
  obtain ⟨phases, contents⟩ := of_decide_eq_true ends
  refine ⟨t, run, fun d inside => ?_, fun kept => ?_⟩
  · have phase := List.mem_map_of_mem (f := AssetDownload.phase) inside
    rw [phases, List.mem_pair] at phase
    rcases phase with first | second
    · exact ⟨_, _, first⟩
    · exact ⟨_, _, second⟩
  · have first := congrArg (·[0]?) phases
    simp only [List.getElem?_map, List.getElem?_cons_zero] at first
    obtain ⟨d, here, phase⟩ := Option.map_eq_some_iff.mp first
    have stands := kept.1 d (List.mem_of_getElem? here) _ _ phase
    cases stands.symm.trans contents

end AssetBatch

end Webfang.Assets
