import Webfang.Assets.KeptAssets
import Webfang.Assets.StreamedAsset

/-!
# Files that a failed download leaves behind

A file that was not there before the download is the temporary one of the attempt under way, or was
left behind.  What is left behind stays, so a failed download leaves nothing exactly when none of
its steps does.
-/

namespace Webfang.Assets

open Webfang.Output StepSystem

section Folder

variable {old files : List Char → Option (List UInt8)} {path temp : List Char} {bytes : List UInt8}
  {held : Option (List Char)}

/-! ## Files of a folder -/

/-- A file was there before, or is the one that is held. -/
def Tidy (old files : List Char → Option (List UInt8)) (held : Option (List Char)) : Prop :=
  ∀ path, (files path).isSome → (old path).isSome ∨ held = some path

theorem tidy_none : Tidy old files none ↔ ∀ path, (files path).isSome → (old path).isSome := by
  simp [Tidy]

theorem not_tidy (fresh : old path = none) (found : (files path).isSome) :
    ¬ Tidy old files none := by
  intro tidy
  have there := tidy_none.mp tidy path found
  rw [fresh] at there
  cases there

/-- What is written to a file that is there changes nothing. -/
theorem tidy_overwrite (found : (files path).isSome) :
    Tidy old (Function.update files path (some bytes)) held ↔ Tidy old files held := by
  refine forall_congr' fun other => ?_
  by_cases same : other = path
  · rw [same, Function.update_self, Option.isSome_some, found]
  · rw [Function.update_of_ne same]

/-- A new file is held. -/
theorem tidy_create (free : files path = none) :
    Tidy old (Function.update files path (some bytes)) (some path) ↔ Tidy old files none := by
  refine forall_congr' fun other => ?_
  by_cases same : other = path
  · subst same
    simp [free]
  · rw [Function.update_of_ne same]
    simp [Ne.symm same]

/-- The held file is removed. -/
theorem tidy_remove (fresh : old path = none) :
    Tidy old (Function.update files path none) none ↔ Tidy old files (some path) := by
  refine forall_congr' fun other => ?_
  by_cases same : other = path
  · subst same
    simp
  · rw [Function.update_of_ne same]
    simp [Ne.symm same]

/-- The held file takes the place of another. -/
theorem tidy_rename (fresh : old temp = none) (found : (files temp).isSome) :
    Tidy old (renameFile files temp path) none ↔
      Tidy old files (some temp) ∧ (old path).isSome := by
  unfold renameFile
  split
  next same =>
      subst same
      refine iff_of_false (not_tidy fresh found) fun both => ?_
      rw [fresh] at both
      cases both.2
  next other =>
      rw [tidy_remove fresh]
      constructor
      · intro tidy
        refine ⟨fun target there => tidy target ?_, ?_⟩
        · by_cases same : target = path
          · rw [same, Function.update_self, found]
          · rwa [Function.update_of_ne same]
        · have there := tidy path (by rwa [Function.update_self])
          rcases there with before | same
          · exact before
          · exact absurd (Option.some.inj same) other
      · intro ⟨tidy, before⟩ target there
        by_cases same : target = path
        · exact .inl (same ▸ before)
        · rw [Function.update_of_ne same] at there
          exact tidy target there

theorem renameFile_target (files : List Char → Option (List UInt8)) (temp path : List Char) :
    renameFile files temp path path = files temp := by
  unfold renameFile
  split
  next same => rw [same]
  next other => rw [Function.update_of_ne (Ne.symm other), Function.update_self]

theorem renameFile_isSome (fresh : old temp = none) (found : (files temp).isSome)
    (kept : ∀ path, (old path).isSome → (files path).isSome) (path : List Char) {other : List Char}
    (before : (old other).isSome) : (renameFile files temp path other).isSome := by
  unfold renameFile
  split
  · exact kept other before
  · have ne : other ≠ temp := by
      rintro rfl
      rw [fresh] at before
      cases before
    rw [Function.update_of_ne ne]
    by_cases same : other = path
    · rwa [same, Function.update_self]
    · rw [Function.update_of_ne same]
      exact kept other before

end Folder

/-! ## What every run keeps -/

/-- The temporary file of the phase, where it is made. -/
def StreamPhase.tempFile : StreamPhase → Option (List Char)
  | .streaming transfer | .discarding transfer | .writing transfer _ | .syncing transfer
  | .moving transfer _ => some transfer.tempPath
  | _ => none

namespace AssetStream

variable {cfg : DownloadConfig} {maxRetries : Nat} {tools : AssetTools} {url : Output.ValidUrl}
  {old : List Char → Option (List UInt8)} {s t : AssetStream} {transfer : Transfer}

/-- The body is what the stream has given so far, and was counted, within the limit. -/
structure Counts (cfg : DownloadConfig) (given : List (List UInt8)) (transfer : Transfer)
    (body : List UInt8) : Prop where
  given : body = given.flatten
  counted : transfer.downloaded = body.length
  limit : transfer.downloaded ≤ cfg.maxFileSize
  fits : transfer.downloaded ≤ 0xFFFFFFFFFFFFFFFF

/-- The temporary file is new, and holds what was hashed. -/
structure InFile (old files : List Char → Option (List UInt8)) (transfer : Transfer) : Prop where
  fresh : old transfer.tempPath = none
  file : files transfer.tempPath = some transfer.hashed

/-- What holds in a phase. -/
def PhaseSound (cfg : DownloadConfig) (old files : List Char → Option (List UInt8))
    (given : List (List UInt8)) : StreamPhase → Prop
  | .creating transfer =>
      files transfer.tempPath = none ∧ transfer.hashed = [] ∧ Counts cfg given transfer []
  | .streaming transfer | .syncing transfer | .moving transfer _ =>
      InFile old files transfer ∧ Counts cfg given transfer transfer.hashed
  | .discarding transfer => InFile old files transfer
  | .writing transfer bytes =>
      InFile old files transfer ∧ Counts cfg given transfer (transfer.hashed ++ bytes)
  | .returned (.ok asset) =>
      files asset.localPath = some given.flatten ∧ asset.size = given.flatten.length ∧
        given.flatten.length ≤ cfg.maxFileSize
  | _ => True

structure Sound (cfg : DownloadConfig) (old : List Char → Option (List UInt8)) (s : AssetStream) :
    Prop where
  kept : ∀ path, (old path).isSome → (s.files path).isSome
  phase : PhaseSound cfg old s.files s.given s.phase

theorem Sound.holds (sound : s.Sound cfg old) {phase : StreamPhase} (now : s.phase = phase) :
    PhaseSound cfg old s.files s.given phase := now ▸ sound.phase

/-- Each file was there before, or is the temporary one of the phase. -/
def IsTidy (old : List Char → Option (List UInt8)) (s : AssetStream) : Prop :=
  Tidy old s.files s.phase.tempFile

def HasSucceeded (s : AssetStream) : Prop := ∃ asset, s.phase = .returned (.ok asset)

/-- What a step leaves: it is sound, and it is tidy just where it cleans up. -/
structure StepKeeps (cfg : DownloadConfig) (old : List Char → Option (List UInt8))
    (s t : AssetStream) (clean : Prop) : Prop where
  sound : t.Sound cfg old
  tidy : ¬ t.HasSucceeded → (t.IsTidy old ↔ s.IsTidy old ∧ clean)

/-! ## Failing attempts -/

theorem fail_cases (maxRetries : Nat) (s : AssetStream) (e : AssetError) :
    s.fail maxRetries e = { s with phase := .returned (.error e) } ∨
      s.fail maxRetries e = { s with phase := .backoff } := by
  unfold fail
  split
  · exact .inl rfl
  · exact .inr rfl

theorem isTidy_fail (e : AssetError) :
    (s.fail maxRetries e).IsTidy old ↔ Tidy old s.files none := by
  rcases fail_cases maxRetries s e with same | same <;> rw [same] <;> rfl

theorem sound_fail (kept : ∀ path, (old path).isSome → (s.files path).isSome) (e : AssetError) :
    (s.fail maxRetries e).Sound cfg old := by
  rcases fail_cases maxRetries s e with same | same <;> rw [same] <;> exact ⟨kept, True.intro⟩

/-- An attempt fails before its temporary file is made. -/
theorem Sound.fail_early (sound : s.Sound cfg old) (early : s.phase.tempFile = none)
    (e : AssetError) : s.StepKeeps cfg old (s.fail maxRetries e) True where
  sound := sound_fail sound.kept e
  tidy _ := by rw [isTidy_fail, IsTidy, early, and_true]

/-- An attempt fails, and its temporary file stays. -/
theorem fail_late {path : List Char} (kept : ∀ path, (old path).isSome → (t.files path).isSome)
    (fresh : old path = none) (found : (t.files path).isSome) (e : AssetError) :
    s.StepKeeps cfg old (t.fail maxRetries e) False where
  sound := sound_fail kept e
  tidy _ := by
    rw [isTidy_fail, and_false, iff_false]
    exact not_tidy fresh found

/-! ## The temporary file -/

variable {bytes : List UInt8}

theorem InFile.found {files : List Char → Option (List UInt8)}
    (inFile : InFile old files transfer) : (files transfer.tempPath).isSome := by
  rw [inFile.file]
  rfl

theorem Sound.fail_late (sound : s.Sound cfg old) (inFile : InFile old s.files transfer)
    (e : AssetError) : s.StepKeeps cfg old (s.fail maxRetries e) False :=
  AssetStream.fail_late sound.kept inFile.fresh inFile.found e

/-- What stands in the temporary file is overwritten. -/
theorem Sound.kept_update (sound : s.Sound cfg old) (path : List Char) (bytes : List UInt8) :
    ∀ other, (old other).isSome → (Function.update s.files path (some bytes) other).isSome := by
  intro other before
  by_cases same : other = path
  · rw [same, Function.update_self]
    rfl
  · rw [Function.update_of_ne same]
    exact sound.kept other before

theorem Sound.kept_remove (sound : s.Sound cfg old) (fresh : old transfer.tempPath = none) :
    ∀ other, (old other).isSome →
      (Function.update s.files transfer.tempPath none other).isSome := by
  intro other before
  have ne : other ≠ transfer.tempPath := by
    rintro rfl
    rw [fresh] at before
    cases before
  rw [Function.update_of_ne ne]
  exact sound.kept other before

/-- A file that is not there was not there before. -/
theorem Sound.fresh (sound : s.Sound cfg old) {path : List Char} (free : s.files path = none) :
    old path = none := by
  cases before : old path with
  | none => rfl
  | some bytes =>
      have there := sound.kept path (by rw [before]; rfl)
      rw [free] at there
      cases there

/-! ## One step -/

theorem Sound.respond (sound : s.Sound cfg old) (phase : s.phase = .sending) {status : Nat}
    {contentType contentDisposition : Option (List Char)} {uuid : List Char}
    (step : s.respond cfg maxRetries url status contentType contentDisposition uuid = some t) :
    s.StepKeeps cfg old t True := by
  unfold AssetStream.respond at step
  split at step
  · cases step
    exact sound.fail_early (by rw [phase]; rfl) _
  · split at step
    · cases step
    next free =>
        cases step
        refine ⟨⟨sound.kept, ?_, rfl, rfl, rfl, Nat.zero_le _, Nat.zero_le _⟩, fun _ => ?_⟩
        · simpa using free
        · rw [and_true, IsTidy, IsTidy, phase]
          rfl

theorem Sound.create (sound : s.Sound cfg old) (phase : s.phase = .creating transfer) :
    s.StepKeeps cfg old { s.settle with phase := .streaming transfer } True := by
  obtain ⟨free, empty, counts⟩ := sound.holds phase
  have settled : s.settle =
      { s with files := Function.update s.files transfer.tempPath (some []) } := by
    rw [settle, phase]
  rw [settled]
  refine ⟨⟨sound.kept_update _ _, ⟨sound.fresh free, ?_⟩, ?_⟩, fun _ => ?_⟩
  · rw [empty]
    exact Function.update_self ..
  · rw [empty]
    exact ⟨counts.given, counts.counted, counts.limit, counts.fits⟩
  · rw [and_true, IsTidy, IsTidy, phase]
    exact tidy_create free

theorem Sound.chunk (sound : s.Sound cfg old) (phase : s.phase = .streaming transfer)
    (bytes : List UInt8) :
    s.StepKeeps cfg old (s.chunk cfg maxRetries transfer bytes)
      (transfer.downloaded + bytes.length ≤ 0xFFFFFFFFFFFFFFFF) := by
  obtain ⟨inFile, counts⟩ := sound.holds phase
  have same {phase' : StreamPhase} (temp : phase'.tempFile = some transfer.tempPath) :
      Tidy old s.files phase'.tempFile ↔ s.IsTidy old := by
    rw [IsTidy, phase, temp]
    rfl
  have more : (s.given ++ [bytes]).flatten = s.given.flatten ++ bytes := by simp
  unfold AssetStream.chunk
  split
  next empty =>
      have none : bytes = [] := List.isEmpty_iff.mp empty
      refine ⟨⟨sound.kept, ?_⟩, fun _ => ?_⟩
      · rw [phase]
        refine ⟨⟨inFile.fresh, inFile.file⟩, ?_, counts.counted, counts.limit, counts.fits⟩
        rw [more, none, List.append_nil]
        exact counts.given
      · have below := counts.fits
        rw [none, List.length_nil, and_iff_left (by omega)]
        rfl
  next =>
      dsimp only
      split
      next beyond =>
          rw [iff_false_intro (Nat.not_le.mpr beyond)]
          exact AssetStream.fail_late (t := { s with given := s.given ++ [bytes] }) sound.kept
            inFile.fresh inFile.found .internal
      next fits =>
          rw [iff_true_intro (Nat.le_of_not_lt fits)]
          split
          · refine ⟨⟨sound.kept, ⟨inFile.fresh, inFile.file⟩⟩, fun _ => ?_⟩
            rw [and_true]
            exact same rfl
          next within =>
              refine ⟨⟨sound.kept, ⟨inFile.fresh, inFile.file⟩, ?_, ?_, Nat.le_of_not_lt within,
                Nat.le_of_not_lt fits⟩, fun _ => ?_⟩
              · rw [more, counts.given]
              · rw [List.length_append, ← counts.counted]
              · rw [and_true]
                exact same rfl

theorem Sound.write (sound : s.Sound cfg old) (phase : s.phase = .writing transfer bytes) :
    s.StepKeeps cfg old
      { s.settle with phase := .streaming { transfer with hashed := transfer.hashed ++ bytes } }
      True := by
  obtain ⟨inFile, counts⟩ := sound.holds phase
  have settled : s.settle = { s with
      files := Function.update s.files transfer.tempPath (some (transfer.hashed ++ bytes)) } := by
    rw [settle, phase]
  rw [settled]
  refine ⟨⟨sound.kept_update _ _, ⟨inFile.fresh, Function.update_self ..⟩, counts.given,
    counts.counted, counts.limit, counts.fits⟩, fun _ => ?_⟩
  rw [and_true, IsTidy, IsTidy, phase]
  exact tidy_overwrite inFile.found

theorem Sound.writeFails (sound : s.Sound cfg old) (phase : s.phase = .writing transfer bytes)
    (partly : List UInt8) (kind : IoKind) :
    s.StepKeeps cfg old (failIo maxRetries { s with
      files := Function.update s.files transfer.tempPath (some (transfer.hashed ++ partly)) } kind)
      False := by
  obtain ⟨inFile, -⟩ := sound.holds phase
  refine AssetStream.fail_late (sound.kept_update _ _) inFile.fresh ?_ _
  dsimp only
  rw [Function.update_self]
  rfl

theorem Sound.remove (sound : s.Sound cfg old) (phase : s.phase = .discarding transfer)
    (e : AssetError) : s.StepKeeps cfg old (s.settle.fail maxRetries e) True := by
  have inFile := sound.holds phase
  have settled : s.settle =
      { s with files := Function.update s.files transfer.tempPath none } := by
    rw [settle, phase]
  rw [settled]
  refine ⟨sound_fail (sound.kept_remove inFile.fresh) e, fun _ => ?_⟩
  rw [isTidy_fail, and_true, IsTidy, phase]
  exact tidy_remove inFile.fresh

theorem Sound.rename (sound : s.Sound cfg old) {finalPath : List Char}
    (phase : s.phase = .moving transfer finalPath) :
    s.StepKeeps cfg old { s.settle with
      phase := .returned (.ok { downloadedAsset tools url transfer.response finalPath with
        size := transfer.downloaded }) } True := by
  obtain ⟨inFile, counts⟩ := sound.holds phase
  have settled : s.settle =
      { s with files := renameFile s.files transfer.tempPath finalPath } := by
    rw [settle, phase]
  rw [settled]
  refine ⟨⟨fun _ => renameFile_isSome inFile.fresh inFile.found sound.kept finalPath, ?_, ?_, ?_⟩,
    fun failed => absurd ⟨_, rfl⟩ failed⟩
  · dsimp only [downloadedAsset]
    rw [renameFile_target, inFile.file, counts.given]
  · dsimp only
    rw [counts.counted, ← counts.given]
  · rw [← counts.given, ← counts.counted]
    exact counts.limit

/-- The download is dropped, and these files are there then. -/
theorem cancelled_keeps {files : List Char → Option (List UInt8)} {clean : Prop}
    (kept : ∀ path, (old path).isSome → (files path).isSome)
    (tidy : Tidy old files none ↔ s.IsTidy old ∧ clean) :
    s.StepKeeps cfg old { s with files, phase := .cancelled } clean where
  sound := ⟨kept, True.intro⟩
  tidy _ := tidy

theorem Sound.cancel (sound : s.Sound cfg old) (underway : s.isOver = false) (done : Bool) :
    s.StepKeeps cfg old { (if done then s.settle else s) with phase := .cancelled }
      (s.CleansUp old (.cancel done)) := by
  have holds := sound.phase
  have idle (early : s.phase.tempFile = none) (settled : s.settle = s)
      (clean : s.CleansUp old (.cancel done)) :
      s.StepKeeps cfg old { (if done then s.settle else s) with phase := .cancelled }
        (s.CleansUp old (.cancel done)) := by
    rw [settled, ite_self]
    refine cancelled_keeps sound.kept ?_
    rw [and_iff_left clean, IsTidy, early]
  have left {transfer : Transfer} {files : List Char → Option (List UInt8)}
      (inFile : InFile old s.files transfer)
      (kept : ∀ path, (old path).isSome → (files path).isSome)
      (found : (files transfer.tempPath).isSome) :
      s.StepKeeps cfg old { s with files, phase := .cancelled } False :=
    cancelled_keeps kept (iff_of_false (not_tidy inFile.fresh found) And.right)
  cases phase : s.phase with
  | sending | backoff =>
      exact idle (by rw [phase]; rfl) (by rw [settle, phase]) (by rw [CleansUp, phase]; trivial)
  | returned _ | cancelled =>
      rw [isOver, phase] at underway
      cases underway
  | creating transfer =>
      rw [phase] at holds
      cases done with
      | false =>
          rw [if_neg (by decide), CleansUp, phase]
          refine cancelled_keeps sound.kept ?_
          rw [and_iff_left rfl, IsTidy, phase]
          rfl
      | true =>
          rw [if_pos rfl, settle, CleansUp, phase]
          dsimp only
          refine cancelled_keeps (sound.kept_update _ _) (iff_of_false ?_ (by simp))
          refine not_tidy (sound.fresh holds.1) ?_
          rw [Function.update_self]
          rfl
  | streaming transfer | syncing transfer =>
      rw [phase] at holds
      rw [settle, CleansUp, phase]
      dsimp only
      rw [ite_self]
      exact left holds.1 sound.kept holds.1.found
  | discarding transfer =>
      rw [phase] at holds
      rw [settle, CleansUp, phase]
      dsimp only
      cases done with
      | false =>
          rw [if_neg (by decide)]
          refine cancelled_keeps sound.kept (iff_of_false ?_ (by simp))
          exact not_tidy holds.fresh holds.found
      | true =>
          rw [if_pos rfl]
          refine cancelled_keeps (sound.kept_remove holds.fresh) ?_
          rw [and_iff_left rfl, IsTidy, phase]
          exact tidy_remove holds.fresh
  | writing transfer bytes =>
      rw [phase] at holds
      rw [settle, CleansUp, phase]
      dsimp only
      cases done with
      | false => exact left holds.1 sound.kept holds.1.found
      | true =>
          rw [if_pos rfl]
          refine left holds.1 (sound.kept_update _ _) ?_
          dsimp only
          rw [Function.update_self]
          rfl
  | moving transfer finalPath =>
      rw [phase] at holds
      rw [settle, CleansUp, phase]
      dsimp only
      cases done with
      | false =>
          rw [if_neg (by decide)]
          refine cancelled_keeps sound.kept (iff_of_false ?_ (by simp))
          exact not_tidy holds.1.fresh holds.1.found
      | true =>
          rw [if_pos rfl]
          refine cancelled_keeps
            (fun _ => renameFile_isSome holds.1.fresh holds.1.found sound.kept finalPath) ?_
          rw [and_iff_right rfl, IsTidy, phase]
          exact tidy_rename holds.1.fresh holds.1.found

theorem Sound.step (sound : s.Sound cfg old) {action : StreamAction}
    (step : streamStep cfg maxRetries tools url s action = some t) :
    s.StepKeeps cfg old t (s.CleansUp old action) := by
  have same {transfer : Transfer} {phase : StreamPhase} (before : s.phase.tempFile =
      some transfer.tempPath) (after : phase.tempFile = some transfer.tempPath)
      (holds : PhaseSound cfg old s.files s.given phase) :
      s.StepKeeps cfg old { s with phase } True := by
    refine ⟨⟨sound.kept, holds⟩, fun _ => ?_⟩
    rw [and_true, IsTidy, IsTidy, before, after]
  have holds := sound.phase
  unfold streamStep at step
  split at step
  next phase =>
      cases step
      exact sound.fail_early (by rw [phase]; rfl) _
  next phase => exact sound.respond phase step
  next phase =>
      cases step
      exact sound.create phase
  next phase =>
      cases step
      exact sound.fail_early (by rw [phase]; rfl) _
  next bytes transfer phase =>
      cases step
      rw [CleansUp, phase]
      exact sound.chunk phase bytes
  next phase =>
      cases step
      rw [phase] at holds
      exact sound.fail_late holds.1 _
  next phase =>
      cases step
      rw [phase] at holds
      exact same (by rw [phase]; rfl) rfl holds
  next phase =>
      cases step
      exact sound.write phase
  next kind partly transfer bytes phase =>
      cases step
      exact sound.writeFails phase partly kind
  next phase =>
      cases step
      rw [CleansUp, iff_true_intro rfl]
      exact sound.remove phase _
  next kind transfer phase =>
      cases step
      rw [phase] at holds
      have clean : s.CleansUp old (.remove (.error kind)) = False := by simp [CleansUp]
      rw [clean]
      exact sound.fail_late holds _
  next transfer phase =>
      cases step
      rw [phase] at holds
      exact same (by rw [phase]; rfl) rfl holds
  next phase =>
      cases step
      rw [phase] at holds
      exact sound.fail_late holds.1 _
  next phase =>
      cases step
      exact sound.rename phase
  next phase =>
      cases step
      rw [phase] at holds
      exact sound.fail_late holds.1 _
  next phase =>
      cases step
      refine ⟨⟨sound.kept, True.intro⟩, fun _ => ?_⟩
      have clean : s.CleansUp old .wake = True := rfl
      rw [clean, and_true, IsTidy, IsTidy, phase]
      rfl
  next done =>
      split at step
      · cases step
      next underway =>
          cases step
          exact sound.cancel (Bool.not_eq_true _ ▸ underway) done
  next => cases step

theorem sound_new (cfg : DownloadConfig) (old : List Char → Option (List UInt8)) :
    (new old).Sound cfg old := ⟨fun _ => id, True.intro⟩

theorem isTidy_new (old : List Char → Option (List UInt8)) : (new old).IsTidy old :=
  fun _ => Or.inl

/-- A download that has returned takes no step. -/
theorem step_succeeded (done : s.HasSucceeded) (action : StreamAction) :
    streamStep cfg maxRetries tools url s action ≠ some t := by
  obtain ⟨asset, phase⟩ := done
  intro step
  cases action with
  | cancel done => simp [streamStep, phase, isOver] at step
  | create outcome | remove outcome | sync outcome | rename outcome =>
      cases outcome <;> simp [streamStep, phase] at step
  | write outcome partly => cases outcome <;> simp [streamStep, phase] at step
  | _ => simp [streamStep, phase] at step

/-- When the download has failed, no phase holds a file. -/
theorem HasFailed.isTidy_iff (failed : s.HasFailed) : s.IsTidy old ↔ s.LeavesNothing old := by
  rcases failed with phase | ⟨e, phase⟩
  · rw [IsTidy, phase]
    exact tidy_none
  · rw [IsTidy, phase]
    exact tidy_none

theorem HasFailed.not_succeeded (failed : s.HasFailed) : ¬ s.HasSucceeded := by
  rintro ⟨asset, phase⟩
  rcases failed with other | ⟨e, other⟩
  · rw [phase] at other
    cases other
  · rw [phase] at other
    cases other

/-- In every run: a failed download leaves nothing behind exactly when its steps clean up; and one
that succeeds has written the concatenation of the chunks, within the limit. -/
theorem leavesNothing_iff_cleansUp (cfg : DownloadConfig) (maxRetries : Nat) (tools : AssetTools)
    (url : Output.ValidUrl) (old : List Char → Option (List UInt8)) (actions : List StreamAction)
    (run : execute (streamStep cfg maxRetries tools url) (new old) actions = some s) :
    (s.HasFailed → (s.LeavesNothing old ↔
      Along (streamStep cfg maxRetries tools url) (CleansUp old) (new old) actions)) ∧
    ∀ asset, s.phase = .returned (.ok asset) →
      s.files asset.localPath = some s.given.flatten ∧ asset.size = s.given.flatten.length ∧
        s.given.flatten.length ≤ cfg.maxFileSize := by
  constructor
  · intro failed
    have all : s.IsTidy old ↔ (new old).IsTidy old ∧
        Along (streamStep cfg maxRetries tools url) (CleansUp old) (new old) actions :=
      good_iff_along (I := Sound cfg old) (fun _ _ _ sound step => (sound.step step).sound)
        (fun _ action _ done => step_succeeded done action)
        (fun _ _ _ sound step => (sound.step step).tidy) run failed.not_succeeded
        (sound_new cfg old)
    rw [← failed.isTidy_iff, all, and_iff_right (isTidy_new old)]
  · intro asset phase
    have sound := execute_invariant (I := Sound cfg old)
      (fun _ _ _ sound step => (sound.step step).sound) run (sound_new cfg old)
    have holds := sound.phase
    rw [phase] at holds
    exact holds

/-! ## Two failed downloads -/

open AssetBatch (slugConfig logoTools firstLogo)

/-- The stream breaks off behind its first chunk. -/
def brokenStream : List StreamAction :=
  [.respond 200 none none ['u'], .create (.ok ()), .chunk [1], .write (.ok ()) [],
    .streamFails false]

/-- The temporary file of the attempt stays. -/
theorem broken_stream_left :
    ∃ t, execute (streamStep slugConfig 0 logoTools firstLogo) (new fun _ => none) brokenStream =
        some t ∧
      t.HasFailed ∧ ¬ t.LeavesNothing fun _ => none := by
  refine ⟨_, rfl, ?_, fun nothing => ?_⟩
  · exact .inr ⟨.network false, rfl⟩
  · have there := nothing "out/images/u.tmp".toList rfl
    cases there

def emptyConfig : DownloadConfig := { slugConfig with maxFileSize := 0 }

/-- A body of one byte, where none is allowed. -/
def oversized : List StreamAction :=
  [.respond 200 none none ['u'], .create (.ok ()), .chunk [1], .remove (.ok ())]

theorem oversized_leavesNothing :
    ∃ t, execute (streamStep emptyConfig 0 logoTools firstLogo) (new fun _ => none) oversized =
        some t ∧
      t.HasFailed ∧ t.LeavesNothing fun _ => none := by
  have exact_ := leavesNothing_iff_cleansUp emptyConfig 0 logoTools firstLogo (fun _ => none)
    oversized rfl
  refine ⟨_, rfl, ?_, ?_⟩
  · exact .inr ⟨.payloadTooLarge, rfl⟩
  · refine (exact_.1 (.inr ⟨.payloadTooLarge, rfl⟩)).mpr (.cons True.intro rfl ?_)
    refine .cons True.intro rfl (.cons ?_ rfl (.cons rfl rfl (along_nil _)))
    exact (by decide : 0 + [1].length ≤ 0xFFFFFFFFFFFFFFFF)

end AssetStream

end Webfang.Assets
