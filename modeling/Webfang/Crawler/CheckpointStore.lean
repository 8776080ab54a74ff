import Mathlib.Data.Finset.Basic
import Webfang.Lib.Execution
import Webfang.Lib.Framing

/-!
# The checkpoint file

`BincodeCheckpoint` of `application/crawler/checkpoint.rs`: a checkpoint is written to a temporary
file, behind the CRC32 of its text, and the file is renamed; a file is read back when its checksum
is right, or else as one of the older format, which has none.  `serde_json` and `crc32fast` are
parameters.
-/

namespace Webfang

namespace CheckpointStore

/-- `banned_until` is a time stamp. -/
structure BannedDomain where
  domain : String
  bannedUntil : Option Int
  reason : String
  deriving DecidableEq, Repr

def currentCheckpointVersion : UInt32 := 2

structure CrawlCheckpoint where
  visited : Finset String
  queued : List String
  pagesCrawled : UInt64
  bannedDomains : List BannedDomain
  version : UInt32
  deriving DecidableEq

/-- `CrawlCheckpoint::new` -/
def CrawlCheckpoint.new : CrawlCheckpoint where
  visited := ∅
  queued := []
  pagesCrawled := 0
  bannedDomains := []
  version := currentCheckpointVersion

structure OldCheckpointSchema where
  visited : List String
  queued : List String
  pagesCrawled : UInt64
  version : UInt32
  bannedDomains : List BannedDomain
  deriving DecidableEq

/-- `CrawlCheckpoint::from` -/
def OldCheckpointSchema.toCheckpoint (old : OldCheckpointSchema) : CrawlCheckpoint where
  visited := old.visited.toFinset
  queued := old.queued
  pagesCrawled := old.pagesCrawled
  bannedDomains := old.bannedDomains
  version := old.version

/-- `serde_json`; the text of a state depends on the order in which its hash set is iterated. -/
structure Serde where
  toString : Nat → CrawlCheckpoint → Option (List UInt8)
  fromSlice : List UInt8 → Option CrawlCheckpoint
  fromSliceOld : List UInt8 → Option OldCheckpointSchema

/-- What is written of a state is read back as it. -/
def Serde.Faithful (serde : Serde) : Prop :=
  ∀ order state text, serde.toString order state = some text → serde.fromSlice text = some state

/-- `to_ne_bytes` of a checksum, on a little-endian machine. -/
def toNeBytes (checksum : UInt32) : List UInt8 := Framing.lengthBytes checksum.toNat

def fromNeBytes (bytes : List UInt8) : UInt32 := .ofNat (Framing.ofBytes bytes)

/-! ## Loading -/

section Load

variable (serde : Serde) (crc32 : List UInt8 → UInt32)

def acceptVersion (state : CrawlCheckpoint) : Option CrawlCheckpoint :=
  if state.version = currentCheckpointVersion then some state else none

def migrateLegacyCheckpoint (data : List UInt8) : Option CrawlCheckpoint :=
  (serde.fromSliceOld data).bind fun old => acceptVersion old.toCheckpoint

def verifyAndParseCheckpoint (data : List UInt8) : Option CrawlCheckpoint :=
  let payload := data.drop 4
  if fromNeBytes (data.take 4) ≠ crc32 payload then migrateLegacyCheckpoint serde data
  else (serde.fromSlice payload).bind acceptVersion

/-- `load`; a file that is missing or cannot be read is `none`. -/
def load (file : Option (List UInt8)) : Option CrawlCheckpoint :=
  file.bind fun data => if data.length < 4 then none else verifyAndParseCheckpoint serde crc32 data

end Load

/-! ## Saving -/

/-- Where a `save` stands: what is still to be written to the temporary file is given. -/
inductive SaveStage
  | idle
  | creating (state : CrawlCheckpoint) (contents : List UInt8)
  | writing (state : CrawlCheckpoint) (pending : List UInt8)
  | syncing (state : CrawlCheckpoint)
  | moving (state : CrawlCheckpoint)
  | removing
  deriving DecidableEq

/-- The two files, the `save` under way, and the state of the last one whose rename completed. -/
structure CheckpointFiles where
  file : Option (List UInt8)
  tmp : Option (List UInt8)
  stage : SaveStage
  renamed : Option CrawlCheckpoint
  deriving DecidableEq

def CheckpointFiles.new : CheckpointFiles := ⟨none, none, .idle, none⟩

inductive SaveAction
  /-- `save` begins and serialises the state. -/
  | save (order : Nat) (state : CrawlCheckpoint)
  | create
  /-- Some bytes reach the temporary file. -/
  | write (count : Nat)
  | sync
  | rename
  /-- The temporary file is removed, or it is not. -/
  | remove (done : Bool)
  /-- The call under way returns an error. -/
  | fail
  /-- The process ends. -/
  | kill
  deriving DecidableEq

section Save

variable (serde : Serde) (crc32 : List UInt8 → UInt32)

def saveStep (s : CheckpointFiles) : SaveAction → Option CheckpointFiles
  | .save order state =>
    match s.stage with
    | .idle => some ((serde.toString order state).elim s fun text =>
        { s with stage := .creating state (toNeBytes (crc32 text) ++ text) })
    | _ => none
  | .create =>
    match s.stage with
    | .creating state contents => some { s with tmp := some [], stage := .writing state contents }
    | _ => none
  | .write count =>
    match s.stage with
    | .writing state pending => some { s with
        tmp := s.tmp.map (· ++ pending.take count)
        stage :=
          if pending.length ≤ count then .syncing state else .writing state (pending.drop count) }
    | _ => none
  | .sync =>
    match s.stage with
    | .syncing state => some { s with stage := .moving state }
    | _ => none
  | .rename =>
    match s.stage with
    | .moving state => some ⟨s.tmp, none, .idle, some state⟩
    | _ => none
  | .remove done =>
    match s.stage with
    | .removing => some { s with tmp := if done then none else s.tmp, stage := .idle }
    | _ => none
  | .fail =>
    match s.stage with
    | .idle => none
    | .removing => none
    | .moving _ => some { s with stage := .removing }
    | _ => some { s with stage := .idle }
  | .kill => some { s with stage := .idle }

end Save

/-! ## What the files hold -/

section Files

variable (serde : Serde) (crc32 : List UInt8 → UInt32)

/-- A file begins with the checksum of what is behind it. -/
def Sealed (data : List UInt8) : Prop :=
  4 ≤ data.length ∧ fromNeBytes (data.take 4) = crc32 (data.drop 4)

instance (crc32 : List UInt8 → UInt32) (data : List UInt8) : Decidable (Sealed crc32 data) :=
  inferInstanceAs (Decidable (_ ∧ _))

/-- The whole file that is written of a state. -/
def Holds (state : CrawlCheckpoint) (data : List UInt8) : Prop :=
  ∃ text, data = toNeBytes (crc32 text) ++ text ∧ serde.fromSlice text = some state

/-- What the temporary file lacks of the state that is being saved. -/
def StageHolds (tmp : Option (List UInt8)) : SaveStage → Prop
  | .idle => True
  | .creating state contents => Holds serde crc32 state contents
  | .writing state pending =>
    ∃ written, tmp = some written ∧ Holds serde crc32 state (written ++ pending)
  | .syncing state => ∃ written, tmp = some written ∧ Holds serde crc32 state written
  | .moving state => ∃ written, tmp = some written ∧ Holds serde crc32 state written
  | .removing => True

/-- The file is the whole one of the state that was renamed last. -/
structure Sound (s : CheckpointFiles) : Prop where
  file : s.file = none ∧ s.renamed = none ∨
    ∃ data state, s.file = some data ∧ s.renamed = some state ∧ Holds serde crc32 state data
  stage : StageHolds serde crc32 s.tmp s.stage

variable {serde crc32}

@[simp] theorem length_toNeBytes (checksum : UInt32) : (toNeBytes checksum).length = 4 := rfl

@[simp] theorem fromNeBytes_toNeBytes (checksum : UInt32) :
    fromNeBytes (toNeBytes checksum) = checksum := by
  rw [fromNeBytes, toNeBytes, Framing.ofBytes_lengthBytes checksum.toNat_lt, UInt32.ofNat_toNat]

theorem Holds.load {state : CrawlCheckpoint} {data : List UInt8}
    (holds : Holds serde crc32 state data) : load serde crc32 (some data) = acceptVersion state := by
  obtain ⟨text, rfl, read⟩ := holds
  have long : ¬ (toNeBytes (crc32 text) ++ text).length < 4 := by simp
  have head : (toNeBytes (crc32 text) ++ text).take 4 = toNeBytes (crc32 text) :=
    List.take_left' (length_toNeBytes _)
  have tail : (toNeBytes (crc32 text) ++ text).drop 4 = text :=
    List.drop_left' (length_toNeBytes _)
  rw [CheckpointStore.load, Option.bind_some, if_neg long, verifyAndParseCheckpoint, head, tail,
    fromNeBytes_toNeBytes, if_neg (not_not_intro rfl), read, Option.bind_some]

theorem sound_new : Sound serde crc32 .new := ⟨.inl ⟨rfl, rfl⟩, trivial⟩

/-- A step that leaves the file and the last state alone. -/
theorem Sound.frame {s s' : CheckpointFiles} (sound : Sound serde crc32 s) (file : s'.file = s.file)
    (renamed : s'.renamed = s.renamed) (stage : StageHolds serde crc32 s'.tmp s'.stage) :
    Sound serde crc32 s' := by
  refine ⟨?_, stage⟩
  rw [file, renamed]
  exact sound.file

theorem Sound.save (faithful : serde.Faithful) {s s' : CheckpointFiles} (sound : Sound serde crc32 s)
    {order : Nat} {state : CrawlCheckpoint}
    (next : saveStep serde crc32 s (.save order state) = some s') : Sound serde crc32 s' := by
  rw [saveStep] at next
  split at next
  · rename_i idle
    cases next
    cases written : serde.toString order state with
    | none => exact sound
    | some text =>
        exact sound.frame rfl rfl ⟨text, rfl, faithful order state text written⟩
  · cases next

theorem Sound.write {s s' : CheckpointFiles} (sound : Sound serde crc32 s) {count : Nat}
    (next : saveStep serde crc32 s (.write count) = some s') : Sound serde crc32 s' := by
  rw [saveStep] at next
  split at next
  · rename_i state pending writing
    cases next
    have stage := sound.stage
    rw [writing] at stage
    obtain ⟨written, tmp, holds⟩ := stage
    refine sound.frame rfl rfl ?_
    rw [tmp, Option.map_some]
    split
    · rename_i last
      rw [List.take_of_length_le last]
      exact ⟨written ++ pending, rfl, holds⟩
    · refine ⟨written ++ pending.take count, rfl, ?_⟩
      rwa [List.append_assoc, List.take_append_drop]
  · cases next

theorem Sound.rename {s s' : CheckpointFiles} (sound : Sound serde crc32 s)
    (next : saveStep serde crc32 s .rename = some s') : Sound serde crc32 s' := by
  rw [saveStep] at next
  split at next
  · rename_i state moving
    cases next
    have stage := sound.stage
    rw [moving] at stage
    obtain ⟨written, tmp, holds⟩ := stage
    exact ⟨.inr ⟨written, state, tmp, rfl, holds⟩, trivial⟩
  · cases next

/-- Every step of every save, and its end at any point, keeps the file that of the last rename. -/
theorem Sound.step (faithful : serde.Faithful) {s s' : CheckpointFiles} {a : SaveAction}
    (sound : Sound serde crc32 s) (next : saveStep serde crc32 s a = some s') :
    Sound serde crc32 s' := by
  have stage := sound.stage
  cases a with
  | save order state => exact sound.save faithful next
  | write count => exact sound.write next
  | rename => exact sound.rename next
  | create =>
      rw [saveStep] at next
      split at next
      · rename_i state contents creating
        rw [creating] at stage
        cases next
        exact sound.frame rfl rfl ⟨[], rfl, stage⟩
      · cases next
  | sync =>
      rw [saveStep] at next
      split at next
      · rename_i state syncing
        rw [syncing] at stage
        cases next
        exact sound.frame rfl rfl stage
      · cases next
  | remove done =>
      rw [saveStep] at next
      split at next
      · cases next
        exact sound.frame rfl rfl trivial
      · cases next
  | fail =>
      rw [saveStep] at next
      split at next
      · cases next
      · cases next
      · cases next
        exact sound.frame rfl rfl trivial
      · cases next
        exact sound.frame rfl rfl trivial
  | kill =>
      cases next
      exact sound.frame rfl rfl trivial

theorem Sound.load {s : CheckpointFiles} (sound : Sound serde crc32 s) :
    load serde crc32 s.file = s.renamed.filter fun state =>
      state.version = currentCheckpointVersion := by
  rcases sound.file with ⟨absent, none⟩ | ⟨data, state, present, last, holds⟩
  · rw [absent, none]
    rfl
  · rw [present, last, holds.load, acceptVersion, Option.filter_some]
    simp only [decide_eq_true_eq]

/-! ## Files without a checksum -/

variable (serde crc32)

/-- A file without a checksum that is read as one of the older format, with the current version. -/
def LegacyOfCurrentVersion (data : List UInt8) : Prop :=
  4 ≤ data.length ∧ ∃ old, serde.fromSliceOld data = some old ∧ old.version = currentCheckpointVersion

variable {serde crc32}

theorem load_unsealed {data : List UInt8} (broken : ¬ Sealed crc32 data) :
    load serde crc32 (some data) ≠ none ↔ LegacyOfCurrentVersion serde data := by
  rw [CheckpointStore.load, Option.bind_some]
  by_cases long : 4 ≤ data.length
  · have mismatch : fromNeBytes (data.take 4) ≠ crc32 (data.drop 4) :=
      fun same => broken ⟨long, same⟩
    rw [if_neg (Nat.not_lt.mpr long), verifyAndParseCheckpoint, if_pos mismatch,
      migrateLegacyCheckpoint, LegacyOfCurrentVersion]
    cases serde.fromSliceOld data with
    | none => simp
    | some old =>
        have same : old.toCheckpoint.version = old.version := rfl
        rw [Option.bind_some, acceptVersion, same]
        by_cases current : old.version = currentCheckpointVersion
        · simp [long, current]
        · simp [current]
  · rw [if_pos (Nat.not_le.mp long)]
    simp [LegacyOfCurrentVersion, long]

end Files

/-- After any saves the file loads as the state of the last rename, if that has the current version.
A file without its checksum loads as nothing just if it is not one of the older format with the
current version. -/
theorem load_iff_no_legacy {serde : Serde} {crc32 : List UInt8 → UInt32}
    (faithful : serde.Faithful) :
    (∀ as t, StepSystem.execute (saveStep serde crc32) .new as = some t →
        load serde crc32 t.file = t.renamed.filter fun state =>
          state.version = currentCheckpointVersion) ∧
      ∀ data, (¬ Sealed crc32 data → load serde crc32 (some data) = none) ↔
        ¬ (¬ Sealed crc32 data ∧ LegacyOfCurrentVersion serde data) := by
  constructor
  · intro as t run
    have sound : Sound serde crc32 t := StepSystem.execute_invariant
      (fun _ _ _ sound next => sound.step faithful next) run sound_new
    exact sound.load
  · intro data
    rw [not_and]
    refine forall_congr' fun broken => ?_
    rw [← load_unsealed broken, not_not]

/-! ## A checksum and a codec -/

/-- One bit of the CRC32 with the reflected polynomial. -/
def crcBit (crc : UInt32) : UInt32 :=
  if crc &&& 1 = 1 then (crc >>> 1) ^^^ 0xedb88320 else crc >>> 1

def crcByte (crc : UInt32) (byte : UInt8) : UInt32 :=
  crcBit (crcBit (crcBit (crcBit (crcBit (crcBit (crcBit (crcBit (crc ^^^ byte.toUInt32))))))))

def sampleCrc32 (bytes : List UInt8) : UInt32 := bytes.foldl crcByte 0xffffffff ^^^ 0xffffffff

def bytesOf (text : String) : List UInt8 := text.toList.map fun c => .ofNat c.toNat

def newText : List UInt8 := bytesOf
  "\x7b\"visited\":[],\"queued\":[],\"pages_crawled\":0,\"banned_domains\":[],\"version\":2\x7d"

def legacyText : List UInt8 := bytesOf "\x7b\"visited\":[],\"version\":2\x7d"

/-- Writes the new checkpoint and reads it, and reads one file of the older format. -/
def sampleSerde : Serde where
  toString _ state := if state = .new then some newText else none
  fromSlice text := if text = newText then some .new else none
  fromSliceOld text := if text = legacyText then some ⟨[], [], 0, 2, []⟩ else none

theorem sampleSerde_faithful : sampleSerde.Faithful := by
  intro order state text written
  rw [sampleSerde] at written
  dsimp only at written
  split at written
  · rename_i new
    cases written
    rw [new]
    show (if newText = newText then some CrawlCheckpoint.new else none) = some .new
    exact if_pos rfl
  · cases written

/-- A save of the new checkpoint that the process does not live to end, and one that completes. -/
def twoSaves : List SaveAction :=
  [.save 0 .new, .create, .write 9, .kill, .save 1 .new, .create, .write 4, .write 99, .sync, .rename]

/-- The files behind them. -/
def savedFiles : CheckpointFiles :=
  ⟨some (toNeBytes (sampleCrc32 newText) ++ newText), none, .idle, some .new⟩

theorem saved_checkpoint_loads : load sampleSerde sampleCrc32 savedFiles.file = some .new :=
  ((load_iff_no_legacy sampleSerde_faithful).1 twoSaves savedFiles rfl).trans
    (by decide)

/-- A file of the older format that claims the current version is resumed. -/
theorem legacy_file_resumed : ¬ ∀ serde crc32, Serde.Faithful serde →
    ∀ data, ¬ Sealed crc32 data → load serde crc32 (some data) = none := by
  intro all
  have none := all sampleSerde sampleCrc32 sampleSerde_faithful legacyText (by decide +kernel)
  revert none
  decide +kernel

end CheckpointStore

end Webfang
