import Mathlib.Algebra.Group.Nat.Defs
import Webfang.Export.SessionSpec

/-!
# The state file of a record store

`infrastructure/export/record_store.rs` loads a state file of either version and migrates the old
one, `application/resume.rs` asks the store which URLs it may skip.  The records of a v2 file are
looked up by canonical key; a migrated record is stored under the URL as the v1 file has it.
-/

namespace Webfang

/-! ## State files -/

/-- What `serde_json` finds in a state file, of either version. -/
structure Envelope where
  /-- `version`, where it is an unsigned number -/
  version : Option Nat
  createdAt : Option Int
  /-- `processed_urls`, where it is a list of texts -/
  processedUrls : Option (List String)
  /-- the records, where the whole is a `StoreFile` -/
  storeFile : Option DomainRecords

/-- The bytes of a state file: JSON, or not. -/
inductive StateFile
  | json (envelope : Envelope)
  | other

/-- The errors of `RecordStore::load`. -/
inductive LoadError
  | io
  | corrupt
  | unsupportedVersion (found : Nat)
  | backup
  deriving DecidableEq, Repr

/-- What the file system and the clock answer to one load. -/
structure LoadEnv where
  /-- the lock is acquired and the file read -/
  readable : Bool
  /-- the modification time of the file in milliseconds -/
  modified : Option Int
  now : Int
  backedUp : Bool
  saved : Bool

/-- `CURRENT_VERSION`. -/
def currentVersion : Nat := 2

/-- The record that a processed URL of a v1 file becomes. -/
def migratedRecord (updatedAt : Int) (url : String) : RawRecord where
  url := url
  canonicalUrl := url
  runId := migratedV1RunId
  contentHash := none
  attempts := 1
  status := .committed
  lastError := none
  outputLocation := none
  updatedAt := updatedAt

/-- The loop of `migrate_v1` over the processed URLs; blank ones are dropped. -/
def migratedRecords (updatedAt : Int) (urls : List String) : DomainRecords :=
  urls.foldl
    (fun records url =>
      if isBlank url then records else records.insert url (migratedRecord updatedAt url)) ∅

/-- `RecordStore::migrate_v1`: the answer, and the file it leaves. -/
def migrateV1 (env : LoadEnv) (envelope : Envelope) :
    Except LoadError DomainRecords × StateFile :=
  match envelope.processedUrls with
  | none => (.error .corrupt, .json envelope)
  | some urls =>
      let updatedAt := env.modified.getD (envelope.createdAt.getD env.now)
      let records := migratedRecords updatedAt urls
      if !env.backedUp then (.error .backup, .json envelope)
      else if !env.saved then (.error .io, .json envelope)
      else
        (.ok (validateAndQuarantine records),
          .json
            { version := some currentVersion
              createdAt := some (envelope.createdAt.getD env.now)
              processedUrls := none
              storeFile := some records })

/-- `RecordStore::load`: the answer, and the file it leaves.  The version is cast to 32 bits. -/
def RecordStore.load (env : LoadEnv) :
    Option StateFile → Except LoadError DomainRecords × Option StateFile
  | none => (.ok ∅, none)
  | some file =>
      if !env.readable then (.error .io, some file)
      else
        match file with
        | .other => (.error .corrupt, some file)
        | .json envelope =>
            let version := envelope.version.getD 1 % 2 ^ 32
            if version = currentVersion then
              match envelope.storeFile with
              | none => (.error .corrupt, some file)
              | some records => (.ok (validateAndQuarantine records), some file)
            else if version = 1 then
              let (answer, file) := migrateV1 env envelope
              (answer, some file)
            else (.error (.unsupportedVersion version), some file)

/-- `RecordStore::load_or_init`: an unreadable file is an empty store. -/
def RecordStore.loadOrInit (env : LoadEnv) (file : Option StateFile) : DomainRecords :=
  match (RecordStore.load env file).1 with
  | .ok records => records
  | .error _ => ∅

/-! ## The resume gate -/

/-- A `Url`: its text, and whether its scheme is http or https. -/
structure ParsedUrl where
  asStr : String
  isHttp : Bool

section Keys

variable (keys : ExportKeys)

/-- `is_committed_proven`. -/
def isCommittedProven (url : String) (records : DomainRecords) : Bool :=
  match records[keys.canonicalKey url]? with
  | some record => (Stateful.reconcile .committed record).isOk
  | none => false

/-- `filter_committed`: the URLs still to drive. -/
def filterCommitted (env : LoadEnv) (file : Option StateFile) (urls : List ParsedUrl) :
    List ParsedUrl :=
  let records := RecordStore.loadOrInit env file
  urls.filter fun url => !isCommittedProven keys url.asStr records

/-- The gate leaves the URL out, whatever others it is given. -/
def Skips (env : LoadEnv) (file : Option StateFile) (url : ParsedUrl) : Prop :=
  ∀ urls, url ∉ filterCommitted keys env file urls

/-- The envelope is that of a v1 file with these processed URLs. -/
def Envelope.IsV1 (envelope : Envelope) (urls : List String) : Prop :=
  envelope.version.getD 1 % 2 ^ 32 = 1 ∧ envelope.processedUrls = some urls

/-! ## What a migration leaves -/

theorem migratedRecords_getElem? (updatedAt : Int) (urls : List String) (key : String) :
    (migratedRecords updatedAt urls)[key]? =
      if key ∈ urls ∧ isBlank key = false then some (migratedRecord updatedAt key) else none := by
  have fold (records : DomainRecords) :
      (urls.foldl
        (fun records url =>
          if isBlank url then records else records.insert url (migratedRecord updatedAt url))
        records)[key]? =
        if key ∈ urls ∧ isBlank key = false then some (migratedRecord updatedAt key)
        else records[key]? := by
    induction urls generalizing records with
    | nil => simp
    | cons url urls ih =>
        rw [List.foldl_cons, ih]
        by_cases later : key ∈ urls ∧ isBlank key = false
        · rw [if_pos later, if_pos ⟨List.mem_cons_of_mem _ later.1, later.2⟩]
        · rw [if_neg later]
          by_cases same : url = key
          · subst same
            cases blank : isBlank url with
            | true => simp
            | false => simp
          · have elsewhere : ¬ (key ∈ url :: urls ∧ isBlank key = false) := fun both =>
              later ⟨(List.mem_cons.mp both.1).resolve_left fun eq => same eq.symm, both.2⟩
            rw [if_neg elsewhere]
            split
            · rfl
            · rw [KeyedMerge.getElem?_insert_of_eq, if_neg same]
  exact (fold ∅).trans (by simp)

theorem valid_migratedRecord {url : String} (meaningful : isBlank url = false) (updatedAt : Int) :
    (migratedRecord updatedAt url).Valid := by
  rw [RawRecord.valid_iff]
  refine ⟨meaningful, fun _ fresh => ?_, fun _ => ⟨rfl, (by decide : (1 : UInt32) ≤ 1)⟩⟩
  cases fresh

/-- A migrated record reconciles as COMMITTED. -/
theorem reconcile_migratedRecord {url : String} (meaningful : isBlank url = false)
    (updatedAt : Int) :
    (Stateful.reconcile .committed (migratedRecord updatedAt url)).isOk = true := by
  have passes : (migratedRecord updatedAt url).validate .committed = .ok () :=
    (valid_migratedRecord meaningful updatedAt).validate
  rw [Stateful.reconcile_of_validate passes]
  rfl

/-- A v2 file is read as the valid ones of its records. -/
theorem loadOrInit_current {env : LoadEnv} (readable : env.readable = true) (envelope : Envelope)
    {records : DomainRecords} (version : envelope.version = some currentVersion)
    (stored : envelope.storeFile = some records) :
    RecordStore.loadOrInit env (some (.json envelope)) = validateAndQuarantine records := by
  unfold RecordStore.loadOrInit RecordStore.load
  dsimp only
  rw [readable, version, stored]
  rfl

/-- A migration that succeeds leaves a v2 file of the migrated records, and answers these. -/
theorem load_v1 {env : LoadEnv} {envelope : Envelope} {urls : List String}
    (legacy : envelope.IsV1 urls) {records : DomainRecords} {after : Option StateFile}
    (loaded : RecordStore.load env (some (.json envelope)) = (.ok records, after)) :
    ∃ updatedAt, records = validateAndQuarantine (migratedRecords updatedAt urls) ∧
      ∀ later : LoadEnv, later.readable = true →
        RecordStore.loadOrInit later after = records := by
  obtain ⟨version, processed⟩ := legacy
  have old : ¬ (1 : Nat) = currentVersion := by decide
  simp only [RecordStore.load, version, migrateV1, processed, if_neg old, if_pos] at loaded
  split at loaded
  · cases loaded
  · split at loaded
    · cases loaded
    · split at loaded
      · cases loaded
      · cases loaded
        refine ⟨_, rfl, fun later readable => ?_⟩
        exact loadOrInit_current readable _ rfl rfl

variable {keys}

/-- The gate skips what has a COMMITTED record under its key. -/
theorem skips_iff {env : LoadEnv} {file : Option StateFile} {url : ParsedUrl} :
    Skips keys env file url ↔
      isCommittedProven keys url.asStr (RecordStore.loadOrInit env file) = true := by
  unfold Skips filterCommitted
  constructor
  · intro skipped
    have alone := skipped [url]
    simpa [List.mem_filter] using alone
  · intro proven urls member
    rw [List.mem_filter, proven] at member
    exact absurd member.2 (by decide)

/-- After a migration, the gate skips a URL whose key is itself a processed URL. -/
theorem isCommittedProven_migrated {url : String} (updatedAt : Int) (urls : List String) :
    isCommittedProven keys url (validateAndQuarantine (migratedRecords updatedAt urls)) = true ↔
      keys.canonicalKey url ∈ urls ∧ isBlank (keys.canonicalKey url) = false := by
  unfold isCommittedProven
  rw [validateAndQuarantine_getElem?, migratedRecords_getElem?]
  by_cases stored : keys.canonicalKey url ∈ urls ∧ isBlank (keys.canonicalKey url) = false
  · have valid := valid_migratedRecord stored.2 updatedAt
    have kept : (some (migratedRecord updatedAt (keys.canonicalKey url))).filter
        (fun record => (invariantViolation record).isNone) =
          some (migratedRecord updatedAt (keys.canonicalKey url)) :=
      Option.filter_eq_some_iff.mpr ⟨rfl, Option.isNone_iff_eq_none.mpr valid⟩
    rw [if_pos stored, kept]
    exact iff_of_true (reconcile_migratedRecord stored.2 updatedAt) stored
  · rw [if_neg stored]
    exact iff_of_false (by decide) stored

end Keys

/-! ## Two state files -/

/-- Everything the load asks for succeeds. -/
def fineLoad : LoadEnv := ⟨true, some 1000, 2000, true, true⟩

/-- A v1 file with these processed URLs. -/
def legacyEnvelope (urls : List String) : Envelope := ⟨some 1, none, some urls, none⟩

/-- The canonical keys of a page with and without `www`. -/
def pageKeys : ExportKeys where
  canonicalKey url := if url = "https://www.example.com/a" then "https://example.com/a" else url
  sha256Hex := id

theorem pageKeys_idempotent (url : String) :
    pageKeys.canonicalKey (pageKeys.canonicalKey url) = pageKeys.canonicalKey url := by
  unfold pageKeys
  dsimp only
  split
  · rfl
  · rfl

/-- A parser that keeps the texts of http URLs. -/
def httpUrl (text : String) : Option ParsedUrl := some ⟨text, true⟩

end Webfang
